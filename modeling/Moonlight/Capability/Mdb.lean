/-
The mapping database: a forest of capability records threaded through an array
by parent, first-child and next-sibling indices.

Link fields are indices, so they are natural numbers with `nil` for the
terminator `0xFFFF`.  The walks over the links follow whatever the array holds;
they run on fuel and give `none` when it is used up.  The field `revocable` is
never read and is left out.
-/
import Moonlight.Capability.Cap
import Moonlight.Lib.Fuel

namespace Moonlight

/-- `mdb_node_t`. -/
structure MdbNode where
  valid : Bool
  cptr : UInt32
  cnodeId : UInt32
  slot : UInt32
  parent : Nat
  firstChild : Nat
  nextSibling : Nat
  cap : Cap
  deriving DecidableEq

def maxMdbNodes : Nat := 1024

/-- `mdb_tree_t`. -/
structure Mdb where
  nodes : Nat → MdbNode
  count : UInt32
  freeHead : Nat

/-- The record `mdb_insert` writes, before it is linked to a parent. -/
def MdbNode.fresh (parentIdx next : Nat) (cptr : UInt32) (cap : Cap) : MdbNode :=
  { valid := true, cptr := cptr, cnodeId := 0, slot := 0, parent := parentIdx,
    firstChild := 0xFFFF, nextSibling := next, cap := cap }

/-- What `mdb_delete` leaves behind. -/
def MdbNode.freed : MdbNode :=
  { valid := false, cptr := 0, cnodeId := 0, slot := 0, parent := 0xFFFF, firstChild := 0xFFFF,
    nextSibling := 0xFFFF, cap := Cap.zero }

namespace Mdb

/-- The index `0xFFFF` that ends every list and every chain of parents. -/
def nil : Nat := 0xFFFF

def setNode (mdb : Mdb) (i : Nat) (n : MdbNode) : Mdb :=
  { mdb with nodes := Function.update mdb.nodes i n }

@[simp] theorem setNode_self (mdb : Mdb) (i : Nat) (n : MdbNode) :
    (mdb.setNode i n).nodes i = n := Function.update_self ..

theorem setNode_ne {i j : Nat} (h : j ≠ i) (mdb : Mdb) (n : MdbNode) :
    (mdb.setNode i n).nodes j = mdb.nodes j := Function.update_of_ne h ..

/-- Index `i` lies in the array and its node is in use. -/
def Valid (mdb : Mdb) (i : Nat) : Prop := i < maxMdbNodes ∧ (mdb.nodes i).valid = true

end Mdb

open Mdb (nil)

def mdbInit : Mdb :=
  { nodes := fun _ =>
      { valid := false, cptr := 0, cnodeId := 0, slot := 0, parent := nil, firstChild := 0,
        nextSibling := 0, cap := Cap.zero }
    count := 0
    freeHead := 0 }

/-- `mdb_insert` with non-null pointers.  The option is the index stored through
`out_idx`.  The new node is marked valid before its parent is looked at. -/
def mdbInsert (mdb : Mdb) (parentIdx : Nat) (cptr : UInt32) (cap : Cap) :
    KError × Option Nat × Mdb :=
  if mdb.count.toNat ≥ maxMdbNodes then (.noMem, none, mdb)
  else
    match (List.range' mdb.freeHead (maxMdbNodes - mdb.freeHead)).find? fun i =>
        !(mdb.nodes i).valid with
    | none => (.noMem, none, mdb)
    | some idx =>
      let placed := mdb.setNode idx (MdbNode.fresh parentIdx nil cptr cap)
      let linked :=
        if parentIdx ≠ nil ∧ parentIdx < maxMdbNodes ∧ (placed.nodes parentIdx).valid then
          let withSibling := placed.setNode idx
            { placed.nodes idx with nextSibling := (placed.nodes parentIdx).firstChild }
          withSibling.setNode parentIdx
            { withSibling.nodes parentIdx with firstChild := idx }
        else placed
      (.ok, some idx,
        { linked with
          count := mdb.count + 1
          freeHead := if idx = mdb.freeHead then idx + 1 else mdb.freeHead })

/-- The tail of `mdb_revoke_recursive`: the capability is zeroed and the node
freed, with its links left as they were. -/
def Mdb.clear (mdb : Mdb) (idx : Nat) : Mdb :=
  { nodes := Function.update mdb.nodes idx
      { mdb.nodes idx with cap := Cap.zero, valid := false }
    count := mdb.count - 1
    freeHead := if idx < mdb.freeHead then idx else mdb.freeHead }

mutual
/-- `mdb_revoke_recursive`. -/
def mdbRevokeRecursive : Nat → Mdb → Nat → Option Mdb
  | 0, _, _ => none
  | fuel + 1, mdb, idx =>
      (mdbRevokeSiblings fuel mdb (mdb.nodes idx).firstChild).map fun mdb' => mdb'.clear idx

/-- The loop over a list of children, shared by the two revoke functions.  The
next sibling is read before the child is cleared. -/
def mdbRevokeSiblings : Nat → Mdb → Nat → Option Mdb
  | 0, _, _ => none
  | fuel + 1, mdb, child =>
      if child = nil then some mdb
      else
        (mdbRevokeRecursive fuel mdb child).bind fun mdb' =>
          mdbRevokeSiblings fuel mdb' (mdb.nodes child).nextSibling
end

def mdbRevoke (fuel : Nat) (mdb : Mdb) (idx : Nat) : Option (KError × Mdb) :=
  if idx ≥ maxMdbNodes then some (.invalidArg, mdb)
  else if (mdb.nodes idx).valid = false then some (.invalidCap, mdb)
  else
    (mdbRevokeSiblings fuel mdb (mdb.nodes idx).firstChild).map fun mdb' =>
      (.ok, mdb'.setNode idx { mdb'.nodes idx with firstChild := nil })

/-- The two kinds of cells the pointer `p` of `mdb_delete` walks over. -/
inductive LinkPtr where
  | firstChild (i : Nat)
  | nextSibling (i : Nat)
  deriving DecidableEq

namespace Mdb

def readLink (mdb : Mdb) : LinkPtr → Nat
  | .firstChild i => (mdb.nodes i).firstChild
  | .nextSibling i => (mdb.nodes i).nextSibling

def writeLink (mdb : Mdb) (p : LinkPtr) (v : Nat) : Mdb :=
  match p with
  | .firstChild i => mdb.setNode i { mdb.nodes i with firstChild := v }
  | .nextSibling i => mdb.setNode i { mdb.nodes i with nextSibling := v }

end Mdb

/-- The unlinking loop of `mdb_delete`. -/
def mdbUnlink : Nat → Mdb → Nat → LinkPtr → Option Mdb
  | 0, _, _, _ => none
  | fuel + 1, mdb, idx, p =>
      if mdb.readLink p = nil then some mdb
      else if mdb.readLink p = idx then some (mdb.writeLink p (mdb.nodes idx).nextSibling)
      else mdbUnlink fuel mdb idx (.nextSibling (mdb.readLink p))

def mdbDelete (fuel : Nat) (mdb : Mdb) (idx : Nat) : Option (KError × Mdb) :=
  if idx ≥ maxMdbNodes then some (.invalidArg, mdb)
  else if (mdb.nodes idx).valid = false then some (.invalidCap, mdb)
  else if (mdb.nodes idx).firstChild ≠ nil then some (.revokeNeeded, mdb)
  else
    let unlinked :=
      if (mdb.nodes idx).parent ≠ nil then
        mdbUnlink fuel mdb idx (.firstChild (mdb.nodes idx).parent)
      else some mdb
    unlinked.map fun mdb' =>
      (.ok,
        { nodes := Function.update mdb'.nodes idx
            MdbNode.freed
          count := mdb'.count - 1
          freeHead := if idx < mdb'.freeHead then idx else mdb'.freeHead })

def mdbIsDescendant : Nat → Mdb → Nat → Nat → Option Bool
  | 0, _, _, _ => none
  | fuel + 1, mdb, ancestor, cur =>
      if cur ≠ nil ∧ cur < maxMdbNodes then
        if cur = ancestor then some true
        else mdbIsDescendant fuel mdb ancestor (mdb.nodes cur).parent
      else some false

/-- `mdb_lookup`: the first valid node that matches the explicit fields or one of
the two encodings of `cptr`. -/
def mdbLookup (mdb : Mdb) (cnodeId slot : UInt32) : Nat :=
  let found := (List.range maxMdbNodes).find? fun i =>
    (mdb.nodes i).valid &&
      ((mdb.nodes i).cnodeId == cnodeId && (mdb.nodes i).slot == slot ||
        (mdb.nodes i).cptr == slot && cnodeId == 0 ||
        (mdb.nodes i).cptr == (cnodeId <<< 8 ||| slot))
  found.getD nil

/-! ### Insertion -/

/-- The index `mdb_insert` takes is in the array and not in use. -/
theorem mdbInsert_cases (mdb : Mdb) (parentIdx : Nat) (cptr : UInt32) (cap : Cap) :
    (∃ e, e ≠ .ok ∧ mdbInsert mdb parentIdx cptr cap = (e, none, mdb)) ∨
    ∃ idx mdb', mdbInsert mdb parentIdx cptr cap = (.ok, some idx, mdb') ∧
      idx < maxMdbNodes ∧ ¬ mdb.Valid idx ∧
      ((parentIdx = nil ∨ ¬ mdb.Valid parentIdx ∧ parentIdx ≠ idx) →
        mdb'.nodes = Function.update mdb.nodes idx (MdbNode.fresh parentIdx nil cptr cap)) ∧
      (mdb.Valid parentIdx →
        mdb'.nodes = Function.update
          (Function.update mdb.nodes idx
            (MdbNode.fresh parentIdx (mdb.nodes parentIdx).firstChild cptr cap))
          parentIdx { mdb.nodes parentIdx with firstChild := idx }) := by
  unfold mdbInsert
  by_cases hcount : mdb.count.toNat ≥ maxMdbNodes
  · exact Or.inl ⟨.noMem, by decide, by simp [hcount]⟩
  rw [if_neg hcount]
  cases hfind : (List.range' mdb.freeHead (maxMdbNodes - mdb.freeHead)).find? fun i =>
      !(mdb.nodes i).valid with
  | none => exact Or.inl ⟨.noMem, by decide, rfl⟩
  | some idx =>
    have hmem := List.mem_of_find?_eq_some hfind
    have hfree : (mdb.nodes idx).valid = false := by simpa using List.find?_some hfind
    have hlt : idx < maxMdbNodes := by
      rw [List.mem_range'_1] at hmem
      omega
    have hnot : ¬ mdb.Valid idx := fun hv => absurd (hfree.symm.trans hv.2) (by decide)
    refine Or.inr ⟨idx, _, rfl, hlt, hnot, fun hp => ?_, fun hp => ?_⟩
    · have hguard : ¬ (parentIdx ≠ nil ∧ parentIdx < maxMdbNodes ∧
          ((mdb.setNode idx (MdbNode.fresh parentIdx nil cptr cap)).nodes parentIdx).valid
            = true) := by
        rintro ⟨hne, hltp, hv⟩
        rcases hp with hp | ⟨hp, hpi⟩
        · exact hne hp
        · rw [Mdb.setNode_ne hpi] at hv
          exact hp ⟨hltp, hv⟩
      simp only [hguard, if_false]
      rfl
    · have hpi : parentIdx ≠ idx := fun heq => hnot (heq ▸ hp)
      have hne : parentIdx ≠ nil := by
        have := hp.1
        simp only [maxMdbNodes] at this
        simp only [nil]
        omega
      simp only [hne, ne_eq, not_false_eq_true, hp.1, Mdb.setNode_ne hpi, hp.2, and_self, if_true,
        Mdb.setNode_self]
      simp [Mdb.setNode, MdbNode.fresh]

end Moonlight
