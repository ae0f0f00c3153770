/-
The slot a capability pointer names, and the number of slots in use.

`cnode_lookup` decodes a pointer through the radix of the CNode, while the operations
that store into a slot or zero one index the array with the pointer as it is.  The two
agree on the pointers below `2 ^ radix`; `slotOp_names_iff` says so for all four
operations at once.

The second half counts.  `cnode_copy`, `cnode_mint` and `cnode_delete` move the `used`
counter with the slot they write, and `cnode_move` leaves both counters alone, so the
counters stay exact as long as no capability moves from one CNode to another.
-/
import Moonlight.Capability.CNode
import Moonlight.Lib.Run
import Mathlib.Data.Finset.Card

namespace Moonlight

/-! ### Decoding a pointer -/

/-- A CNode that `cnode_init` accepted, with any slot contents since. -/
def CNode.Made (cn : CNode) : Prop :=
  ∃ cn₀ guard radix slots used, (cnodeInit cn₀ guard radix).1 = .ok ∧
    cn = { (cnodeInit cn₀ guard radix).2 with slots := slots, used := used }

/-- The slot that the low `radix` bits of a pointer name. -/
def CNode.lowBits (cn : CNode) (d : UInt32) : Nat := d.toNat % 2 ^ cn.radix.toNat

/-- What `cnode_lookup` needs of a slot to return it. -/
def Cap.Usable (c : Cap) : Prop := c.isValid ≠ 0 ∧ c.hwCap.tag ≠ 0

instance (c : Cap) : Decidable c.Usable := inferInstanceAs (Decidable (_ ∧ _))

/-- What a lookup reads of a CNode besides its slots. -/
structure CNode.Decodes (cn : CNode) : Prop where
  guardSize : cn.guardSize = 0
  radix_pos : 1 ≤ cn.radix.toNat
  radix_le : cn.radix.toNat ≤ 8

theorem CNode.Made.decodes {cn : CNode} (h : cn.Made) : cn.Decodes := by
  obtain ⟨cn₀, guard, radix, slots, used, hok, rfl⟩ := h
  unfold cnodeInit at hok ⊢
  by_cases hr : radix > 8 ∨ radix = 0
  · rw [if_pos hr] at hok
    cases hok
  · rw [if_neg hr]
    rw [not_or] at hr
    have hle : radix.toNat ≤ 8 := by simpa using UInt8.le_iff_toNat_le.mp (UInt8.not_lt.mp hr.1)
    have hpos : radix.toNat ≠ 0 := fun h => hr.2 (UInt8.toNat_inj.mp h)
    exact ⟨rfl, Nat.pos_of_ne_zero hpos, hle⟩

theorem toNat_mask : ∀ n, n < 9 →
    (((1 : UInt32) <<< (UInt8.ofNat n).toUInt32) - 1).toNat = 2 ^ n - 1 := by
  decide

/-- The mask of radix `r` keeps the pointer modulo `2 ^ r`. -/
theorem toNat_and_mask {r : UInt8} (hr : r.toNat ≤ 8) (d : UInt32) :
    (d &&& (((1 : UInt32) <<< r.toUInt32) - 1)).toNat = d.toNat % 2 ^ r.toNat := by
  have hmask := toNat_mask r.toNat (by omega)
  rw [UInt8.ofNat_toNat] at hmask
  rw [UInt32.toNat_and, hmask, Nat.and_two_pow_sub_one_eq_mod]

theorem CNode.Decodes.radix_cases {cn : CNode} (h : cn.Decodes) :
    ¬ (cn.radix = 0 ∨ cn.radix > 8) := by
  rintro (h0 | h8)
  · have hpos := h.radix_pos
    rw [h0] at hpos
    exact absurd hpos (by decide)
  · have hlt := UInt8.lt_iff_toNat_lt.mp h8
    exact absurd h.radix_le (by simpa using hlt)

theorem CNode.Decodes.lowBits_lt {cn : CNode} (h : cn.Decodes) (d : UInt32) :
    cn.lowBits d < 256 := by
  have hlt : cn.lowBits d < 2 ^ cn.radix.toNat := Nat.mod_lt _ (Nat.two_pow_pos _)
  have hle : 2 ^ cn.radix.toNat ≤ 2 ^ 8 := Nat.pow_le_pow_right (by decide) h.radix_le
  omega

theorem CNode.Decodes.decode {cn : CNode} (h : cn.Decodes) (d : UInt32) :
    cn.decode d = some (cn.lowBits d) := by
  -- Radix 8 takes the branch with the literal mask, which is the mask of radix 8.
  have hslot : ((if cn.radix = 8 then d &&& 0xFF
      else d &&& (((1 : UInt32) <<< cn.radix.toUInt32) - 1)) : UInt32).toNat = cn.lowBits d := by
    by_cases h8 : cn.radix = 8
    · rw [if_pos h8, CNode.lowBits, ← toNat_and_mask h.radix_le, h8]
      rfl
    · rw [if_neg h8, toNat_and_mask h.radix_le]
      rfl
  have hbound := h.lowBits_lt d
  unfold CNode.decode
  rw [if_neg h.radix_cases, if_neg (by simp [h.guardSize])]
  simp only [ge_iff_le, UInt32.le_iff_toNat_le, hslot]
  exact if_neg (Nat.not_le.mpr hbound)

/-- A lookup returns the slot that the low bits of the pointer name, if that slot is usable. -/
theorem CNode.Decodes.lookupSlot {cn : CNode} (h : cn.Decodes) (d : UInt32) :
    cnodeLookupSlot cn d =
      if (cn.slots (cn.lowBits d)).Usable then some (cn.lowBits d) else none := by
  split_ifs with hu
  · exact cnodeLookupSlot_iff.mpr ⟨h.decode d, hu⟩
  · rw [Option.eq_none_iff_forall_ne_some]
    intro s hs
    obtain ⟨hd, husable⟩ := cnodeLookupSlot_iff.mp hs
    rw [h.decode, Option.some.injEq] at hd
    subst hd
    exact hu husable

theorem CNode.Decodes.lookup {cn : CNode} (h : cn.Decodes) (d : UInt32) :
    cnodeLookup cn d =
      if (cn.slots (cn.lowBits d)).Usable then some (cn.slots (cn.lowBits d)) else none := by
  rw [cnodeLookup, h.lookupSlot]
  split_ifs <;> rfl

/-! ### The four operations on a slot -/

section SlotOperations

variable {ι : Type}

/-- An operation on a slot, with what it needs besides the CNode and the index. -/
inductive SlotOp (ι : Type) where
  | copy (src : ι) (s rights : UInt32)
  | mint (src : ι) (s rights badge : UInt32)
  | move (src : ι) (s : UInt32)
  | delete

namespace SlotOp

def run [DecidableEq ι] (cns : ι → CNode) (dst : ι) (d : UInt32) :
    SlotOp ι → KError × (ι → CNode)
  | copy src s rights => cnodeCopy cns dst d src s rights
  | mint src s rights badge => cnodeMint cns dst d src s rights badge
  | move src s => cnodeMove cns dst d src s
  | delete => cnodeDelete cns dst d

/-- The checks that the operation makes before it writes. -/
def Allowed (cns : ι → CNode) (dst : ι) (d : UInt32) : SlotOp ι → Prop
  | copy src s rights => ∃ sc, CopyAllowed cns dst d src s rights sc
  | mint src s rights _ => ∃ sc, MintAllowed cns dst d src s rights sc
  | move src s => ∃ slot, MoveAllowed cns dst d src s slot
  | delete => DeleteAllowed cns dst d

/-- The capability that the operation stores.  A delete stores none. -/
def stored (cns : ι → CNode) : SlotOp ι → Option Cap
  | copy src s rights => (cnodeLookup (cns src) s).map fun sc => capDerive sc rights sc.badge
  | mint src s rights badge => (cnodeLookup (cns src) s).map fun sc => capDerive sc rights badge
  | move src s => cnodeLookup (cns src) s
  | delete => none

/-- The pointer `d` names the slot that the operation from `cns` to `cns'` wrote: a lookup
returns the capability stored there, from slot `d`, and nothing after a delete. -/
def Names (cns cns' : ι → CNode) (dst : ι) (d : UInt32) (op : SlotOp ι) : Prop :=
  cnodeLookup (cns' dst) d = op.stored cns ∧
    ∀ slot, cnodeLookupSlot (cns' dst) d = some slot → slot = d.toNat

/-- The pointer is one that the CNode decodes to itself.  A delete may also take any
other pointer, as long as the slot it decodes to is not usable. -/
def InReach (cns : ι → CNode) (dst : ι) (d : UInt32) (op : SlotOp ι) : Prop :=
  d.toNat < 2 ^ (cns dst).radix.toNat ∨
    (op = delete ∧ ¬ ((cns dst).slots ((cns dst).lowBits d)).Usable)

theorem stored_copy {cns : ι → CNode} {dst src : ι} {d s rights : UInt32} {sc : Cap}
    (h : CopyAllowed cns dst d src s rights sc) :
    (copy src s rights).stored cns = some { sc with rights := rights } := by
  rw [stored, h.2.1, Option.map_some, capDerive_of_subset ((rightsSubset_iff _ _).mp h.2.2.1)]

theorem stored_mint {cns : ι → CNode} {dst src : ι} {d s rights : UInt32} {sc : Cap}
    (h : MintAllowed cns dst d src s rights sc) (badge : UInt32) :
    (mint src s rights badge).stored cns = some { sc with rights := rights, badge := badge } := by
  rw [stored, h.1.2.1, Option.map_some, capDerive_of_subset ((rightsSubset_iff _ _).mp h.1.2.2.1)]

theorem stored_move {cns : ι → CNode} {dst src : ι} {d s : UInt32} {slot : Nat}
    (h : MoveAllowed cns dst d src s slot) :
    (move src s).stored cns = some ((cns src).slots slot) := by
  rw [stored, cnodeLookup, h.1, Option.map_some]

/-- What an operation that is not a delete stores is usable, because its source was. -/
theorem stored_usable {cns : ι → CNode} {dst : ι} {d : UInt32} {op : SlotOp ι}
    (h : op.Allowed cns dst d) (hop : op ≠ delete) : ∃ c, op.stored cns = some c ∧ c.Usable := by
  cases op with
  | copy src s rights =>
    obtain ⟨sc, hsc⟩ := h
    obtain ⟨-, -, -, -, hvalid, htag⟩ := cnodeLookup_some hsc.2.1
    exact ⟨_, stored_copy hsc, hvalid, htag⟩
  | mint src s rights badge =>
    obtain ⟨sc, hsc⟩ := h
    obtain ⟨-, -, -, -, hvalid, htag⟩ := cnodeLookup_some hsc.1.2.1
    exact ⟨_, stored_mint hsc badge, hvalid, htag⟩
  | move src s =>
    obtain ⟨slot, hslot⟩ := h
    obtain ⟨-, hvalid, htag⟩ := cnodeLookupSlot_some hslot.1
    exact ⟨_, stored_move hslot, hvalid, htag⟩
  | delete => exact absurd rfl hop

/-- What an accepted operation leaves at the index it was given. -/
structure Wrote (cns cns' : ι → CNode) (dst : ι) (d : UInt32) (op : SlotOp ι) : Prop where
  slot : (cns' dst).slots d.toNat = (op.stored cns).getD Cap.zero
  radix : (cns' dst).radix = (cns dst).radix
  guardSize : (cns' dst).guardSize = (cns dst).guardSize

theorem Wrote.decodes {cns cns' : ι → CNode} {dst : ι} {d : UInt32} {op : SlotOp ι}
    (h : op.Wrote cns cns' dst d) (hdec : (cns dst).Decodes) : (cns' dst).Decodes := by
  constructor
  · rw [h.guardSize]
    exact hdec.guardSize
  · rw [h.radix]
    exact hdec.radix_pos
  · rw [h.radix]
    exact hdec.radix_le

theorem Wrote.lowBits {cns cns' : ι → CNode} {dst : ι} {d : UInt32} {op : SlotOp ι}
    (h : op.Wrote cns cns' dst d) : (cns' dst).lowBits d = (cns dst).lowBits d := by
  rw [CNode.lowBits, CNode.lowBits, h.radix]

/-- A pointer that the CNode decodes to itself names the slot that was written. -/
theorem Wrote.names {cns cns' : ι → CNode} {dst : ι} {d : UInt32} {op : SlotOp ι}
    (h : op.Wrote cns cns' dst d) (hal : op.Allowed cns dst d) (hdec : (cns dst).Decodes)
    (hd : (cns dst).lowBits d = d.toNat) : op.Names cns cns' dst d := by
  have hdec' := h.decodes hdec
  have hd' : (cns' dst).lowBits d = d.toNat := h.lowBits.trans hd
  constructor
  · rw [hdec'.lookup, hd', h.slot]
    by_cases hop : op = delete
    · subst hop
      have hzero : ¬ Cap.zero.Usable := by decide
      exact if_neg hzero
    · obtain ⟨c, hc, husable⟩ := stored_usable hal hop
      rw [hc]
      exact if_pos husable
  · intro slot hslot
    rw [hdec'.lookupSlot, hd'] at hslot
    split_ifs at hslot
    exact (Option.some.inj hslot).symm

/-- An operation that stores is named by its pointer only if the pointer decodes to the
index it was written at. -/
theorem lowBits_eq_of_names {cns cns' : ι → CNode} {dst : ι} {d : UInt32} {op : SlotOp ι}
    (h : op.Wrote cns cns' dst d) (hal : op.Allowed cns dst d) (hop : op ≠ delete)
    (hdec : (cns dst).Decodes) (hnames : op.Names cns cns' dst d) :
    (cns dst).lowBits d = d.toNat := by
  obtain ⟨c, hc, -⟩ := stored_usable hal hop
  obtain ⟨slot, hslot, -⟩ := cnodeLookup_some (hnames.1.trans hc)
  have hd := hnames.2 slot hslot
  rw [(h.decodes hdec).lookupSlot, h.lowBits] at hslot
  split_ifs at hslot
  exact (Option.some.inj hslot).trans hd

variable [DecidableEq ι]

/-- The moved capability stays where it was put: the slot that is zeroed afterwards held a
valid capability, and the destination slot did not. -/
theorem wrote_move {cns : ι → CNode} {dst src : ι} {d s : UInt32} {slot : Nat}
    (h : MoveAllowed cns dst d src s slot) {moved : ι → CNode}
    (hmoved : moved = Function.update cns dst ((cns dst).setSlot d.toNat ((cns src).slots slot))) :
    (move src s).Wrote cns (Function.update moved src ((moved src).setSlot slot Cap.zero))
      dst d := by
  have hdst : moved dst = (cns dst).setSlot d.toNat ((cns src).slots slot) := by
    rw [hmoved, Function.update_self]
  by_cases hsrc : dst = src
  · subst hsrc
    have hne : d.toNat ≠ slot := by
      rintro rfl
      exact (cnodeLookupSlot_some h.1).2.1 h.2
    rw [hdst]
    constructor
    · rw [Function.update_self, CNode.setSlot_ne hne, CNode.setSlot_self, stored_move h]
      rfl
    · rw [Function.update_self]
      rfl
    · rw [Function.update_self]
      rfl
  · constructor
    · rw [Function.update_of_ne hsrc, hdst, CNode.setSlot_self, stored_move h]
      rfl
    · rw [Function.update_of_ne hsrc, hdst]
      rfl
    · rw [Function.update_of_ne hsrc, hdst]
      rfl

theorem wrote_addSlot {cns : ι → CNode} {dst : ι} {d : UInt32} {op : SlotOp ι} {c : Cap}
    (h : op.stored cns = some c) :
    op.Wrote cns (Function.update cns dst ((cns dst).addSlot d.toNat c)) dst d := by
  constructor <;> rw [Function.update_self]
  · rw [h]
    exact CNode.setSlot_self ..
  · rfl
  · rfl

theorem wrote_delete (cns : ι → CNode) (dst : ι) (d : UInt32) :
    (delete : SlotOp ι).Wrote cns (Function.update cns dst ((cns dst).clearSlot d.toNat))
      dst d := by
  constructor <;> rw [Function.update_self]
  · exact CNode.setSlot_self ..
  · rfl
  · rfl

theorem refused_of_eq {cns : ι → CNode} {dst : ι} {d : UInt32} {op : SlotOp ι} {e : KError}
    (hne : e ≠ .ok) (he : op.run cns dst d = (e, cns)) :
    (op.run cns dst d).1 ≠ .ok ∧ (op.run cns dst d).2 = cns := by
  rw [he]
  exact ⟨hne, rfl⟩

theorem accepted_of_eq {cns cns' : ι → CNode} {dst : ι} {d : UInt32} {op : SlotOp ι}
    (he : op.run cns dst d = (.ok, cns')) (h : op.Wrote cns cns' dst d) :
    (op.run cns dst d).1 = .ok ∧ op.Wrote cns (op.run cns dst d).2 dst d := by
  rw [he]
  exact ⟨rfl, h⟩

/-- Each operation makes its checks, and then writes the slot it was given. -/
theorem run_cases (cns : ι → CNode) (dst : ι) (d : UInt32) (op : SlotOp ι) :
    (op.Allowed cns dst d ∧ (op.run cns dst d).1 = .ok ∧
      op.Wrote cns (op.run cns dst d).2 dst d) ∨
    (¬ op.Allowed cns dst d ∧ (op.run cns dst d).1 ≠ .ok ∧ (op.run cns dst d).2 = cns) := by
  cases op with
  | copy src s rights =>
    rcases cnodeCopy_cases cns dst d src s rights with ⟨sc, hsc, he⟩ | ⟨hno, e, hne, he⟩
    · exact Or.inl ⟨⟨sc, hsc⟩, accepted_of_eq he (wrote_addSlot (stored_copy hsc))⟩
    · exact Or.inr ⟨fun ⟨sc, hsc⟩ => hno sc hsc, refused_of_eq hne he⟩
  | mint src s rights badge =>
    rcases cnodeMint_cases cns dst d src s rights badge with ⟨sc, hsc, he⟩ | ⟨hno, e, hne, he⟩
    · exact Or.inl ⟨⟨sc, hsc⟩, accepted_of_eq he (wrote_addSlot (stored_mint hsc badge))⟩
    · exact Or.inr ⟨fun ⟨sc, hsc⟩ => hno sc hsc, refused_of_eq hne he⟩
  | move src s =>
    rcases cnodeMove_cases cns dst d src s with ⟨slot, moved, hslot, hm, he⟩ | ⟨hno, e, hne, he⟩
    · exact Or.inl ⟨⟨slot, hslot⟩, accepted_of_eq he (wrote_move hslot hm)⟩
    · exact Or.inr ⟨fun ⟨slot, hslot⟩ => hno slot hslot, refused_of_eq hne he⟩
  | delete =>
    rcases cnodeDelete_cases cns dst d with ⟨hal, he⟩ | ⟨hno, e, hne, he⟩
    · exact Or.inl ⟨hal, accepted_of_eq he (wrote_delete cns dst d)⟩
    · exact Or.inr ⟨hno, refused_of_eq hne he⟩

/-- A delete leaves every other slot as it was, so a pointer that decodes to another slot
finds nothing only if it found nothing before. -/
theorem names_delete_iff {cns : ι → CNode} {dst : ι} {d : UInt32} (hdec : (cns dst).Decodes)
    (hal : DeleteAllowed cns dst d) (hd : (cns dst).lowBits d ≠ d.toNat) :
    (delete : SlotOp ι).Names cns (cnodeDelete cns dst d).2 dst d ↔
      ¬ ((cns dst).slots ((cns dst).lowBits d)).Usable := by
  rcases cnodeDelete_cases cns dst d with ⟨-, he⟩ | ⟨hno, -⟩
  · have hw := wrote_delete cns dst d
    have hslot : (((cns dst).clearSlot d.toNat).slots ((cns dst).lowBits d)) =
        (cns dst).slots ((cns dst).lowBits d) := CNode.setSlot_ne hd ..
    have hl := (hw.decodes hdec).lookup d
    rw [hw.lowBits, Function.update_self, hslot] at hl
    have hs := (hw.decodes hdec).lookupSlot d
    rw [hw.lowBits, Function.update_self, hslot] at hs
    have hrun : (cnodeDelete cns dst d).2 dst = (cns dst).clearSlot d.toNat := by
      rw [he]
      exact Function.update_self ..
    rw [Names, hrun, hl, hs]
    split_ifs with hu
    · exact ⟨fun h => absurd h.1 (Option.some_ne_none _), fun h => absurd hu h⟩
    · exact ⟨fun _ => hu, fun _ => ⟨rfl, fun _ h => by cases h⟩⟩
  · exact absurd hal hno

end SlotOp

variable [DecidableEq ι]

/-- The pointer given to an accepted operation names the slot it wrote exactly if the
radix leaves the pointer whole; a delete passes with a longer pointer too, when the slot
that the pointer decodes to has nothing to find. -/
theorem slotOp_names_iff {cns : ι → CNode} {dst : ι} (hmade : (cns dst).Made) (d : UInt32)
    (op : SlotOp ι) :
    ((op.run cns dst d).1 = .ok → op.Names cns (op.run cns dst d).2 dst d) ↔
      (op.Allowed cns dst d → op.InReach cns dst d) := by
  have hdec := hmade.decodes
  have hreach : (cns dst).lowBits d = d.toNat ↔ d.toNat < 2 ^ (cns dst).radix.toNat :=
    Nat.mod_eq_iff_lt (Nat.two_pow_pos _).ne'
  rcases SlotOp.run_cases cns dst d op with ⟨hal, hok, hw⟩ | ⟨hno, hne, -⟩
  · constructor
    · intro h _
      by_cases hd : (cns dst).lowBits d = d.toNat
      · exact Or.inl (hreach.mp hd)
      by_cases hop : op = .delete
      · subst hop
        exact Or.inr ⟨rfl, (SlotOp.names_delete_iff hdec hal hd).mp (h hok)⟩
      · exact absurd (SlotOp.lowBits_eq_of_names hw hal hop hdec (h hok)) hd
    · intro h _
      rcases h hal with hlt | ⟨rfl, hfree⟩
      · exact hw.names hal hdec (hreach.mpr hlt)
      · by_cases hd : (cns dst).lowBits d = d.toNat
        · exact hw.names hal hdec hd
        · exact (SlotOp.names_delete_iff hdec hal hd).mpr hfree
  · exact ⟨fun _ hal => absurd hal hno, fun _ hok => absurd hok hne⟩

end SlotOperations

/-- A valid, tagged frame capability with every right. -/
def Cap.plain : Cap :=
  { Cap.zero with
    type := .frame
    rights := 7
    isValid := 1
    hwCap := { SimCap.zero with tag := 1 } }

/-- A CNode of radix 4 with one capability in slot 1. -/
def CNode.small : CNode := CNode.addSlot (cnodeInit CNode.zero 0 4).2 1 Cap.plain

theorem CNode.small_made : CNode.small.Made :=
  ⟨CNode.zero, 0, 4, CNode.small.slots, CNode.small.used, rfl, rfl⟩

/-- Radix 4 reads pointer 20 as slot 4, so a copy to 20 is accepted and not found there. -/
theorem copy_beyond_radix_lost :
    CNode.small.Made ∧
    (cnodeCopy (fun _ : Unit => CNode.small) () 20 () 1 7).1 = .ok ∧
    cnodeLookup ((cnodeCopy (fun _ : Unit => CNode.small) () 20 () 1 7).2 ()) 20 = none ∧
    ¬ (SlotOp.copy () 1 7).Names (fun _ : Unit => CNode.small)
      (cnodeCopy (fun _ : Unit => CNode.small) () 20 () 1 7).2 () 20 := by
  have hnone :
      cnodeLookup ((cnodeCopy (fun _ : Unit => CNode.small) () 20 () 1 7).2 ()) 20 = none := by
    decide
  refine ⟨CNode.small_made, by decide, hnone, fun h => ?_⟩
  rw [SlotOp.Names, hnone] at h
  exact absurd h.1 (by decide)

/-- Pointer 5 is below the radix: the copy is found where it was put. -/
theorem slotOp_names_below_radix :
    (cnodeCopy (fun _ : Unit => CNode.small) () 5 () 1 7).1 = .ok ∧
    (SlotOp.copy () 1 7).Names (fun _ : Unit => CNode.small)
      (cnodeCopy (fun _ : Unit => CNode.small) () 5 () 1 7).2 () 5 :=
  have hok : (cnodeCopy (fun _ : Unit => CNode.small) () 5 () 1 7).1 = .ok := by decide
  have hiff := @slotOp_names_iff Unit _ (fun _ => CNode.small) () CNode.small_made 5 (.copy () 1 7)
  ⟨hok, hiff.mpr (fun _ => Or.inl (by decide)) hok⟩

/-! ### Counting the slots in use -/

/-- The slots that hold a valid capability. -/
def CNode.validSlots (cn : CNode) : Finset Nat :=
  (Finset.range 256).filter fun i => (cn.slots i).isValid ≠ 0

/-- `used` is the number of valid slots. -/
def CNode.UsedExact (cn : CNode) : Prop := cn.used.toNat = cn.validSlots.card

theorem CNode.mem_validSlots {cn : CNode} {i : Nat} :
    i ∈ cn.validSlots ↔ i < 256 ∧ (cn.slots i).isValid ≠ 0 := by
  rw [CNode.validSlots, Finset.mem_filter, Finset.mem_range]

theorem CNode.card_validSlots_le (cn : CNode) : cn.validSlots.card ≤ 256 := by
  have h := Finset.card_filter_le (Finset.range 256) fun i => (cn.slots i).isValid ≠ 0
  rwa [Finset.card_range] at h

theorem CNode.validSlots_setSlot {i : Nat} (hi : i < 256) {c : Cap} (hc : c.isValid ≠ 0)
    (cn : CNode) : (cn.setSlot i c).validSlots = insert i cn.validSlots := by
  ext j
  rw [Finset.mem_insert, CNode.mem_validSlots, CNode.mem_validSlots]
  by_cases hj : j = i
  · subst hj
    simp [hi, hc]
  · rw [CNode.setSlot_ne hj]
    simp [hj]

theorem CNode.validSlots_setSlot_zero (cn : CNode) (i : Nat) :
    (cn.setSlot i Cap.zero).validSlots = cn.validSlots.erase i := by
  ext j
  rw [Finset.mem_erase, CNode.mem_validSlots, CNode.mem_validSlots]
  by_cases hj : j = i
  · subst hj
    simp [Cap.zero]
  · rw [CNode.setSlot_ne hj]
    simp [hj]

theorem CNode.card_validSlots_setSlot {cn : CNode} {i : Nat} (hi : i < 256) {c : Cap}
    (hc : c.isValid ≠ 0) (hfree : (cn.slots i).isValid = 0) :
    (cn.setSlot i c).validSlots.card = cn.validSlots.card + 1 := by
  rw [CNode.validSlots_setSlot hi hc]
  exact Finset.card_insert_of_notMem fun h => (CNode.mem_validSlots.mp h).2 hfree

theorem CNode.card_validSlots_setSlot_zero {cn : CNode} {i : Nat} (hi : i < 256)
    (hvalid : (cn.slots i).isValid ≠ 0) :
    (cn.setSlot i Cap.zero).validSlots.card + 1 = cn.validSlots.card := by
  rw [CNode.validSlots_setSlot_zero]
  exact Finset.card_erase_add_one (CNode.mem_validSlots.mpr ⟨hi, hvalid⟩)

theorem CNode.UsedExact.addSlot {cn : CNode} (h : cn.UsedExact) {i : Nat} (hi : i < 256) {c : Cap}
    (hc : c.isValid ≠ 0) (hfree : (cn.slots i).isValid = 0) : (cn.addSlot i c).UsedExact := by
  have hle := cn.card_validSlots_le
  unfold CNode.UsedExact at h ⊢
  show (cn.used + 1).toNat = (cn.setSlot i c).validSlots.card
  rw [CNode.card_validSlots_setSlot hi hc hfree, UInt32.toNat_add, h]
  show (cn.validSlots.card + 1) % 2 ^ 32 = _
  omega

theorem CNode.UsedExact.clearSlot {cn : CNode} (h : cn.UsedExact) {i : Nat} (hi : i < 256)
    (hvalid : (cn.slots i).isValid ≠ 0) : (cn.clearSlot i).UsedExact := by
  have hcard := CNode.card_validSlots_setSlot_zero hi hvalid
  have hle := cn.card_validSlots_le
  unfold CNode.UsedExact at h ⊢
  show (cn.used - 1).toNat = (cn.setSlot i Cap.zero).validSlots.card
  rw [UInt32.toNat_sub, h]
  show (2 ^ 32 - 1 + cn.validSlots.card) % 2 ^ 32 = _
  omega

/-- A move inside the CNode trades one slot for another. -/
theorem CNode.UsedExact.move_within {cn : CNode} (h : cn.UsedExact) {d slot : Nat} (hd : d < 256)
    (hslot : slot < 256) (hvalid : (cn.slots slot).isValid ≠ 0)
    (hfree : (cn.slots d).isValid = 0) :
    ((cn.setSlot d (cn.slots slot)).setSlot slot Cap.zero).UsedExact := by
  have hne : slot ≠ d := by
    rintro rfl
    exact hvalid hfree
  have hin := CNode.card_validSlots_setSlot hd hvalid hfree
  have hout : ((cn.setSlot d (cn.slots slot)).setSlot slot Cap.zero).validSlots.card + 1 =
      (cn.setSlot d (cn.slots slot)).validSlots.card := by
    apply CNode.card_validSlots_setSlot_zero hslot
    rw [CNode.setSlot_ne hne]
    exact hvalid
  unfold CNode.UsedExact at h ⊢
  show cn.used.toNat = _
  omega

/-- A store without the counter leaves it one short. -/
theorem CNode.UsedExact.not_setSlot {cn : CNode} (h : cn.UsedExact) {i : Nat} (hi : i < 256)
    {c : Cap} (hc : c.isValid ≠ 0) (hfree : (cn.slots i).isValid = 0) :
    ¬ (cn.setSlot i c).UsedExact := by
  have hcard := CNode.card_validSlots_setSlot hi hc hfree
  unfold CNode.UsedExact at h ⊢
  show ¬ cn.used.toNat = _
  omega

theorem cnodeInit_usedExact {cn : CNode} {guard : UInt32} {radix : UInt8}
    (h : (cnodeInit cn guard radix).1 = .ok) : (cnodeInit cn guard radix).2.UsedExact := by
  unfold cnodeInit at h ⊢
  by_cases hr : radix > 8 ∨ radix = 0
  · rw [if_pos hr] at h
    cases h
  · rw [if_neg hr]
    show 0 = ((Finset.range 256).filter fun _ => Cap.zero.isValid ≠ 0).card
    rw [Finset.filter_false_of_mem (fun _ _ hne => hne rfl), Finset.card_empty]

section Counting

variable {ι : Type} [DecidableEq ι]

/-- One call: an operation on slot `idx` of CNode `dst`. -/
structure SlotCall (ι : Type) where
  dst : ι
  idx : UInt32
  op : SlotOp ι

def slotStep (cns : ι → CNode) (c : SlotCall ι) : ι → CNode := (c.op.run cns c.dst c.idx).2

/-- A move that is accepted stays within one CNode. -/
def SlotCall.StaysWithin (cns : ι → CNode) (c : SlotCall ι) : Prop :=
  ∀ src s, c.op = .move src s → c.op.Allowed cns c.dst c.idx → src = c.dst

theorem usedExact_update {cns : ι → CNode} (h : ∀ i, (cns i).UsedExact) (dst : ι) (cn : CNode) :
    (∀ i, (Function.update cns dst cn i).UsedExact) ↔ cn.UsedExact := by
  constructor
  · intro hall
    have hdst := hall dst
    rwa [Function.update_self] at hdst
  · intro hcn i
    by_cases hi : i = dst
    · subst hi
      rwa [Function.update_self]
    · rw [Function.update_of_ne hi]
      exact h i

/-- A move keeps the counters exact if and only if it stays within one CNode: across two,
the destination gains a slot that nobody counts. -/
theorem moved_exact_iff {cns : ι → CNode} (h : ∀ i, (cns i).UsedExact) {dst src : ι}
    {d s : UInt32} (hd : d.toNat < 256) {slot : Nat} (hal : MoveAllowed cns dst d src s slot)
    {moved : ι → CNode}
    (hmoved : moved = Function.update cns dst ((cns dst).setSlot d.toNat ((cns src).slots slot))) :
    (∀ i, (Function.update moved src ((moved src).setSlot slot Cap.zero) i).UsedExact) ↔
      src = dst := by
  obtain ⟨hlt, hvalid, -⟩ := cnodeLookupSlot_some hal.1
  subst hmoved
  constructor
  · intro hall
    by_contra hne
    have hdst := hall dst
    rw [Function.update_of_ne (Ne.symm hne), Function.update_self] at hdst
    exact (h dst).not_setSlot hd hvalid hal.2 hdst
  · rintro rfl
    rw [Function.update_idem, Function.update_self, usedExact_update h]
    exact (h src).move_within hd hlt hvalid hal.2

/-- A copy into a free slot keeps the counters exact, whatever it makes of the rights and
the badge. -/
theorem CopyAllowed.exact {cns : ι → CNode} (h : ∀ i, (cns i).UsedExact) {dst src : ι}
    {d s rights : UInt32} {sc : Cap} (hsc : CopyAllowed cns dst d src s rights sc) {c : Cap}
    (hc : c.isValid = sc.isValid) (i : ι) :
    (Function.update cns dst ((cns dst).addSlot d.toNat c) i).UsedExact := by
  obtain ⟨-, -, -, -, hvalid, -⟩ := cnodeLookup_some hsc.2.1
  have hd : d.toNat < 256 := UInt32.lt_iff_toNat_lt.mp hsc.1.1
  rw [← hc] at hvalid
  exact (usedExact_update h dst _).mpr ((h dst).addSlot hd hvalid hsc.2.2.2) i

theorem cnodeCopy_exact {cns : ι → CNode} (h : ∀ i, (cns i).UsedExact) (dst : ι) (d : UInt32)
    (src : ι) (s rights : UInt32) (i : ι) : ((cnodeCopy cns dst d src s rights).2 i).UsedExact := by
  rcases cnodeCopy_cases cns dst d src s rights with ⟨sc, hsc, he⟩ | ⟨-, e, -, he⟩
  · rw [he]
    apply hsc.exact h
    rfl
  · rw [he]
    exact h i

theorem cnodeMint_exact {cns : ι → CNode} (h : ∀ i, (cns i).UsedExact) (dst : ι) (d : UInt32)
    (src : ι) (s rights badge : UInt32) (i : ι) :
    ((cnodeMint cns dst d src s rights badge).2 i).UsedExact := by
  rcases cnodeMint_cases cns dst d src s rights badge with ⟨sc, ⟨hsc, -⟩, he⟩ | ⟨-, e, -, he⟩
  · rw [he]
    apply hsc.exact h
    rfl
  · rw [he]
    exact h i

theorem cnodeDelete_exact {cns : ι → CNode} (h : ∀ i, (cns i).UsedExact) (dst : ι) (d : UInt32)
    (i : ι) : ((cnodeDelete cns dst d).2 i).UsedExact := by
  rcases cnodeDelete_cases cns dst d with ⟨hal, he⟩ | ⟨-, e, -, he⟩
  · have hd : d.toNat < 256 := UInt32.lt_iff_toNat_lt.mp hal.1
    rw [he]
    exact (usedExact_update h dst _).mpr ((h dst).clearSlot hd hal.2) i
  · rw [he]
    exact h i

theorem cnodeMove_exact_iff {cns : ι → CNode} (h : ∀ i, (cns i).UsedExact) {dst src : ι}
    {d s : UInt32} (hd : d.toNat < 256) :
    (∀ i, ((cnodeMove cns dst d src s).2 i).UsedExact) ↔
      ((∃ slot, MoveAllowed cns dst d src s slot) → src = dst) := by
  rcases cnodeMove_cases cns dst d src s with ⟨slot, moved, hslot, hm, he⟩ | ⟨hno, e, -, he⟩
  · rw [he]
    exact (moved_exact_iff h hd hslot hm).trans
      ⟨fun hsrc _ => hsrc, fun hstay => hstay ⟨slot, hslot⟩⟩
  · rw [he]
    exact ⟨fun _ ⟨slot, hslot⟩ => absurd hslot (hno slot), fun _ => h⟩

theorem slotStep_exact_iff {cns : ι → CNode} (h : ∀ i, (cns i).UsedExact) {c : SlotCall ι}
    (hidx : c.idx.toNat < 256) : (∀ i, (slotStep cns c i).UsedExact) ↔ c.StaysWithin cns := by
  obtain ⟨dst, d, op⟩ := c
  cases op with
  | copy src s rights =>
    exact iff_of_true (cnodeCopy_exact h dst d src s rights) (fun _ _ hop => by cases hop)
  | mint src s rights badge =>
    exact iff_of_true (cnodeMint_exact h dst d src s rights badge) (fun _ _ hop => by cases hop)
  | move src s =>
    refine (cnodeMove_exact_iff h hidx).trans ⟨fun hsrc _ _ hop hal => ?_, fun hstay => ?_⟩
    · cases hop
      exact hsrc hal
    · exact hstay src s rfl
  | delete => exact iff_of_true (cnodeDelete_exact h dst d) (fun _ _ hop => by cases hop)

/-- Over every sequence of calls, the counters of all CNodes are exact in every state if
and only if no capability is moved from one CNode to another. -/
theorem used_exact_iff {cns : ι → CNode} (h : ∀ i, (cns i).UsedExact) {calls : List (SlotCall ι)}
    (hidx : ∀ c ∈ calls, c.idx < maxCapsPerCnode) :
    (∀ done, done <+: calls → ∀ i, (Run.exec slotStep cns done i).UsedExact) ↔
      Run.Guarded slotStep (fun cns c => c.StaysWithin cns) cns calls := by
  have hlt : ∀ c ∈ calls, c.idx.toNat < 256 := fun c hc => UInt32.lt_iff_toNat_lt.mp (hidx c hc)
  exact Run.exec_forall_prefix_iff_of_guarded (fun cns => ∀ i, (cns i).UsedExact) (fun _ hs => hs)
    (fun _ _ hi hs => (slotStep_exact_iff hs hi).mpr)
    (fun _ _ hi hs => (slotStep_exact_iff hs hi).mp) h (Run.guarded_of_forall hlt cns)

end Counting

/-- Two fresh CNodes, the first with a capability in slot 1. -/
def CNode.pair : Bool → CNode
  | false => CNode.addSlot (cnodeInit CNode.zero 0 8).2 1 Cap.plain
  | true => (cnodeInit CNode.zero 0 8).2

theorem CNode.pair_exact (i : Bool) : (CNode.pair i).UsedExact := by
  have hfresh : (cnodeInit CNode.zero 0 8).2.UsedExact := cnodeInit_usedExact rfl
  cases i with
  | false => exact hfresh.addSlot (by decide) (by decide) rfl
  | true => exact hfresh

/-- The capability moves to the other CNode, whose counter still says that it is empty. -/
theorem move_between_uncounted :
    (∀ i, (CNode.pair i).UsedExact) ∧
    (cnodeMove CNode.pair true 0 false 1).1 = .ok ∧
    ((cnodeMove CNode.pair true 0 false 1).2 true).used = 0 ∧
    (((cnodeMove CNode.pair true 0 false 1).2 true).slots 0).isValid = 1 ∧
    ¬ ∀ i, (slotStep CNode.pair ⟨true, 0, .move false 1⟩ i).UsedExact := by
  refine ⟨CNode.pair_exact, by decide, by decide, by decide, fun hall => ?_⟩
  have hstay := (slotStep_exact_iff CNode.pair_exact (by decide)).mp hall
  have hal : MoveAllowed CNode.pair true 0 false 1 1 := ⟨by decide, by decide⟩
  exact absurd (hstay false 1 rfl ⟨1, hal⟩) (by decide)

/-- A move inside the first CNode, a copy into the second and a delete. -/
def pairCalls : List (SlotCall Bool) :=
  [⟨false, 2, .move false 1⟩, ⟨true, 0, .copy false 2 7⟩, ⟨false, 2, .delete⟩]

theorem used_exact_without_crossing :
    (Run.exec slotStep CNode.pair pairCalls false).UsedExact ∧
      (Run.exec slotStep CNode.pair pairCalls true).UsedExact := by
  have hstay : Run.Guarded slotStep (fun cns c => c.StaysWithin cns) CNode.pair pairCalls := by
    refine ⟨fun src s hop _ => ?_, fun src s hop => ?_, fun src s hop => ?_, trivial⟩
    · cases hop
      rfl
    · cases hop
    · cases hop
  have hexact :=
    (used_exact_iff CNode.pair_exact (by decide)).mpr hstay pairCalls (List.prefix_refl _)
  exact ⟨hexact false, hexact true⟩

end Moonlight
