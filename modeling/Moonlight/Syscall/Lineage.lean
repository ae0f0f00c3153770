/-
The lineage of capabilities.

Ghost state beside the kernel gives every capability of the root CNode a number
of its own.  Retype, copy and mint make a new capability and record which one it
was obtained from; a move keeps the number; a delete is recorded.  `Held` says
that the ghost state and the slots agree: a number is in exactly one valid slot
from the time it is given out until it is deleted.
-/
import Mathlib.Data.Set.Function
import Mathlib.Order.Interval.Set.Basic
import Moonlight.Capability.MdbForest
import Moonlight.Syscall.Kernel

namespace Moonlight

structure Lineage where
  kernel : Kernel
  /-- The number of the capability in a valid slot of the root CNode. -/
  inst : Nat → Nat
  parent : Nat → Option Nat
  /-- The MDB node made for a capability. -/
  node : Nat → Option Nat
  next : Nat
  deleted : Set Nat

/-- `d` was obtained from `c` by one or more retype, copy and mint steps, with
moves in between. -/
def Lineage.Derived (s : Lineage) : Nat → Nat → Prop :=
  Relation.TransGen fun a b => s.parent b = some a

/-- A new capability obtained from number `src` appears in slot `dst`. -/
def Lineage.derive (s : Lineage) (k : Kernel) (src : Option Nat) (dst : Nat)
    (node : Option Nat) : Lineage :=
  { kernel := k
    inst := Function.update s.inst dst s.next
    parent := Function.update s.parent s.next src
    node := Function.update s.node s.next node
    next := s.next + 1
    deleted := s.deleted }

inductive LineageOp where
  | retype
  | copy
  | mint
  | move
  | delete

def LineageOp.toInvokeOp : LineageOp → InvokeOp
  | .retype => .untypedRetype
  | .copy => .cnodeCopy
  | .mint => .cnodeMint
  | .move => .cnodeMove
  | .delete => .cnodeDelete

/-- An invocation of the capability the root CNode holds at `cptr`. -/
structure Invocation where
  cptr : UInt32
  op : LineageOp
  arg1 : UInt64
  arg2 : UInt64
  arg3 : UInt64

namespace Invocation

def srcIdx (i : Invocation) : UInt32 := (i.arg2 &&& 0xFF).toUInt32

def dstIdx (i : Invocation) : UInt32 := (i.arg3 &&& 0xFF).toUInt32

end Invocation

/-- The ghost side of a successful invocation through slot `slot`, with `k` the
kernel it leaves. -/
def Lineage.record (s : Lineage) (slot : Nat) (i : Invocation) (k : Kernel) : Lineage :=
  match i.op with
  | .retype =>
      let cap := s.kernel.root.slots slot
      let newCap := capRetype cap (CapType.ofWord i.arg2) cap.u.untypedPaddr i.arg3
      s.derive k (some (s.inst slot)) (retypeDest i.arg1).toNat
        (mdbInsert s.kernel.mdb 0 (retypeDest i.arg1) newCap).2.1
  | .copy | .mint =>
      s.derive k ((cnodeLookupSlot s.kernel.root i.srcIdx).map s.inst) i.dstIdx.toNat none
  | .move =>
      { s with
        kernel := k
        inst := Function.update s.inst i.dstIdx.toNat
          (((cnodeLookupSlot s.kernel.root i.srcIdx).map s.inst).getD 0) }
  | .delete => { s with kernel := k, deleted := insert (s.inst i.srcIdx.toNat) s.deleted }

def lineageStep (s : Lineage) (i : Invocation) : Lineage :=
  match cnodeLookupSlot s.kernel.root i.cptr with
  | none => s
  | some slot =>
    let r := handleInvoke s.kernel (s.kernel.root.slots slot) i.op.toInvokeOp i.arg1 i.arg2 i.arg3
    if r.1 = .ok then s.record slot i r.2 else { s with kernel := r.2 }

/-! ### Slots and numbers -/

/-- A slot of the CNode in use. -/
def CNode.InUse (cn : CNode) (i : Nat) : Prop := i < 256 ∧ (cn.slots i).isValid ≠ 0

/-- Slots in use and numbers given out and not deleted correspond one to one, and
every slot in use answers a lookup. -/
structure Held (cn : CNode) (inst : Nat → Nat) (next : Nat) (deleted : Set Nat) : Prop where
  radix : cn.radix = 8
  guardSize : cn.guardSize = 0
  tagged : ∀ {i}, cn.InUse i → (cn.slots i).hwCap.tag ≠ 0
  lt_next : ∀ {i}, cn.InUse i → inst i < next
  inj : ∀ {i j}, cn.InUse i → cn.InUse j → inst i = inst j → i = j
  alive : ∀ {i}, cn.InUse i → inst i ∉ deleted
  held : ∀ {d}, d < next → d ∉ deleted → ∃ i, cn.InUse i ∧ inst i = d
  deleted_lt : ∀ {d}, d ∈ deleted → d < next

theorem CNode.inUse_setSlot {cn : CNode} {d : Nat} {c : Cap} (hd : d < 256)
    (hc : c.isValid ≠ 0) : {i | (cn.setSlot d c).InUse i} = insert d {i | cn.InUse i} := by
  ext i
  rw [Set.mem_ofPred_eq, Set.mem_insert_iff, Set.mem_ofPred_eq, InUse]
  by_cases hi : i = d
  · subst hi
    simp [hd, hc]
  · rw [setSlot_ne hi]
    exact ⟨Or.inr, fun h => h.resolve_left hi⟩

theorem CNode.inUse_clear (cn : CNode) (d : Nat) :
    {i | (cn.setSlot d Cap.zero).InUse i} = {i | cn.InUse i} \ {d} := by
  ext i
  rw [Set.mem_ofPred_eq, Set.mem_sdiff, Set.mem_ofPred_eq, InUse]
  by_cases hi : i = d
  · subst hi
    simp [Cap.zero]
  · rw [setSlot_ne hi]
    exact ⟨fun h => ⟨h, hi⟩, fun h => h.1⟩

/-- With eight index bits and no guard the index is the slot. -/
theorem Held.lookup {cn : CNode} {inst : Nat → Nat} {next : Nat} {deleted : Set Nat}
    (h : Held cn inst next deleted) {i : Nat} (hi : cn.InUse i) :
    cnodeLookupSlot cn (UInt32.ofNat i) = some i := by
  have hlt := hi.1
  have hidx : (UInt32.ofNat i &&& 0xFF).toNat = i := by
    rw [UInt32.toNat_and, UInt32.toNat_ofNat']
    show i % 2 ^ 32 &&& 2 ^ 8 - 1 = i
    rw [Nat.and_two_pow_sub_one_eq_mod]
    omega
  have hbound : ¬ (UInt32.ofNat i &&& 0xFF) ≥ maxCapsPerCnode := by
    rw [ge_iff_le, UInt32.le_iff_toNat_le, hidx]
    show ¬ 256 ≤ i
    omega
  unfold cnodeLookupSlot
  simp [h.radix, h.guardSize, hbound, hidx, hi.2, h.tagged hi]

section
variable {cn : CNode} {inst : Nat → Nat} {next : Nat} {deleted : Set Nat}

/-- The numbers give a bijection between the slots in use and the numbers still
alive. -/
theorem Held.bijOn (h : Held cn inst next deleted) :
    Set.BijOn inst {i | cn.InUse i} (Set.Iio next \ deleted) :=
  ⟨fun _ hi => ⟨h.lt_next hi, h.alive hi⟩, fun _ hi _ hj => h.inj hi hj,
    fun _ hd => h.held hd.1 hd.2⟩

theorem held_of_bijOn (hradix : cn.radix = 8) (hguard : cn.guardSize = 0)
    (htagged : ∀ {i}, cn.InUse i → (cn.slots i).hwCap.tag ≠ 0)
    (hbij : Set.BijOn inst {i | cn.InUse i} (Set.Iio next \ deleted))
    (hdeleted : ∀ {d}, d ∈ deleted → d < next) : Held cn inst next deleted :=
  { radix := hradix, guardSize := hguard, tagged := htagged
    lt_next := fun hi => (hbij.mapsTo hi).1
    inj := fun hi hj heq => hbij.injOn hi hj heq
    alive := fun hi => (hbij.mapsTo hi).2
    held := fun hd hnot => hbij.surjOn ⟨hd, hnot⟩
    deleted_lt := hdeleted }

/-- Tags survive when a slot is overwritten by a tagged or an invalid capability. -/
theorem CNode.tagged_setSlot (h : ∀ {i}, cn.InUse i → (cn.slots i).hwCap.tag ≠ 0) {d : Nat}
    {c : Cap} (hc : c.isValid ≠ 0 → c.hwCap.tag ≠ 0) {i : Nat} (hi : (cn.setSlot d c).InUse i) :
    ((cn.setSlot d c).slots i).hwCap.tag ≠ 0 := by
  have hv := hi.2
  by_cases hid : i = d
  · subst hid
    rw [CNode.setSlot_self] at hv ⊢
    exact hc hv
  · rw [CNode.setSlot_ne hid] at hv ⊢
    exact h ⟨hi.1, hv⟩

theorem CNode.InUse.ne_of_free {i d : Nat} (hi : cn.InUse i) (hfree : (cn.slots d).isValid = 0) :
    i ≠ d := by
  intro heq
  rw [heq] at hi
  exact hi.2 hfree

theorem Held.put (h : Held cn inst next deleted) {d : Nat} (hd : d < 256)
    (hfree : (cn.slots d).isValid = 0) {c : Cap} (hc : c.isValid ≠ 0) (ht : c.hwCap.tag ≠ 0) :
    Held (cn.addSlot d c) (Function.update inst d next) (next + 1) deleted := by
  have hnext : next ∉ deleted := fun hdel => Nat.lt_irrefl next (h.deleted_lt hdel)
  have hlive : Set.Iio (next + 1) \ deleted = insert next (Set.Iio next \ deleted) := by
    ext e
    rw [Set.mem_insert_iff, Set.mem_sdiff, Set.mem_sdiff, Set.mem_Iio, Set.mem_Iio]
    by_cases he : e = next
    · simp [he, hnext]
    · have hlt : e < next + 1 ↔ e < next := by omega
      simp [he, hlt]
  have hold : Set.BijOn (Function.update inst d next) {i | cn.InUse i} (Set.Iio next \ deleted) :=
    h.bijOn.congr fun i hi => (Function.update_of_ne (CNode.InUse.ne_of_free hi hfree) ..).symm
  have hnew := hold.insert (a := d) (by simp)
  rw [Function.update_self, ← hlive, ← CNode.inUse_setSlot hd hc] at hnew
  exact held_of_bijOn h.radix h.guardSize (CNode.tagged_setSlot h.tagged fun _ => ht) hnew
    fun he => Nat.lt_succ_of_lt (h.deleted_lt he)

theorem Held.move (h : Held cn inst next deleted) {d s : Nat} (hd : d < 256)
    (hfree : (cn.slots d).isValid = 0) (hs : cn.InUse s) :
    Held ((cn.setSlot d (cn.slots s)).setSlot s Cap.zero) (Function.update inst d (inst s)) next
      deleted := by
  have hds : d ≠ s := (hs.ne_of_free hfree).symm
  have hrest : Set.BijOn (Function.update inst d (inst s)) ({i | cn.InUse i} \ {s})
      ((Set.Iio next \ deleted) \ {inst s}) :=
    (h.bijOn.sdiff_singleton hs).congr fun i hi =>
      (Function.update_of_ne (CNode.InUse.ne_of_free hi.1 hfree) ..).symm
  have hnew := hrest.insert (a := d) (by simp)
  have hlive : inst s ∈ Set.Iio next \ deleted := h.bijOn.mapsTo hs
  rw [Function.update_self, Set.insert_sdiff_singleton, Set.insert_eq_of_mem hlive,
    Set.insert_sdiff_singleton_comm hds, ← CNode.inUse_setSlot hd hs.2,
    ← CNode.inUse_clear] at hnew
  have htagged : ∀ {i}, (cn.setSlot d (cn.slots s)).InUse i →
      ((cn.setSlot d (cn.slots s)).slots i).hwCap.tag ≠ 0 :=
    CNode.tagged_setSlot h.tagged fun _ => h.tagged hs
  exact held_of_bijOn h.radix h.guardSize
    (CNode.tagged_setSlot htagged fun hzero => absurd rfl hzero) hnew h.deleted_lt

theorem Held.delete (h : Held cn inst next deleted) {d : Nat} (hd : cn.InUse d) :
    Held (cn.clearSlot d) inst next (insert (inst d) deleted) := by
  have hnew := h.bijOn.sdiff_singleton hd
  rw [← CNode.inUse_clear, Set.sdiff_sdiff, Set.union_singleton] at hnew
  refine held_of_bijOn h.radix h.guardSize
    (CNode.tagged_setSlot h.tagged fun hzero => absurd rfl hzero) hnew fun he => ?_
  rcases Set.mem_insert_iff.mp he with rfl | he
  · exact h.lt_next hd
  · exact h.deleted_lt he

end
end Moonlight
