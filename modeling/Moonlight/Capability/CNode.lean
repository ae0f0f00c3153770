/-
CNodes: 256 capability slots behind a guard/radix decoder.

`cnode_lookup` returns a pointer to a slot, modelled by the slot's number.  The
operations that take two CNodes work on a store indexed by CNode references, so
that source and destination may be the same object, as they are in every call
the invoke handler makes.
-/
import Moonlight.Capability.Cap

namespace Moonlight

/-- `cnode_t`. -/
structure CNode where
  slots : Nat → Cap
  guard : UInt32
  radix : UInt8
  guardSize : UInt8
  used : UInt32

def maxCapsPerCnode : UInt32 := 256

def CNode.zero : CNode :=
  { slots := fun _ => Cap.zero, guard := 0, radix := 0, guardSize := 0, used := 0 }

def CNode.setSlot (cn : CNode) (i : Nat) (c : Cap) : CNode :=
  { cn with slots := Function.update cn.slots i c }

@[simp] theorem CNode.setSlot_self (cn : CNode) (i : Nat) (c : Cap) :
    (cn.setSlot i c).slots i = c := Function.update_self ..

theorem CNode.setSlot_ne {i j : Nat} (h : j ≠ i) (cn : CNode) (c : Cap) :
    (cn.setSlot i c).slots j = cn.slots j := Function.update_of_ne h ..

/-- Store a capability into a free slot and count it. -/
def CNode.addSlot (cn : CNode) (i : Nat) (c : Cap) : CNode :=
  { cn.setSlot i c with used := cn.used + 1 }

/-- Zero a slot and uncount it. -/
def CNode.clearSlot (cn : CNode) (i : Nat) : CNode :=
  { cn.setSlot i Cap.zero with used := cn.used - 1 }

def cnodeInit (cn : CNode) (guard : UInt32) (radix : UInt8) : KError × CNode :=
  if radix > 8 ∨ radix = 0 then (.invalidArg, cn)
  else (.ok, { CNode.zero with guard := guard, radix := radix })

/-- The slot `cnode_lookup` points to, or `none` for a null result.  A shift by
`guard_size` is taken modulo 32, as the machine instruction does. -/
def cnodeLookupSlot (cn : CNode) (idx : UInt32) : Option Nat :=
  if cn.radix = 0 ∨ cn.radix > 8 then none
  else if cn.guardSize > 0 ∧
      idx >>> cn.radix.toUInt32 ≠ cn.guard &&& (((1 : UInt32) <<< cn.guardSize.toUInt32) - 1) then
    none
  else
    let mask := ((1 : UInt32) <<< cn.radix.toUInt32) - 1
    let slot := if cn.radix = 8 then idx &&& 0xFF else idx &&& mask
    if slot ≥ maxCapsPerCnode then none
    else if (cn.slots slot.toNat).isValid = 0 then none
    else if (cn.slots slot.toNat).hwCap.tag = 0 then none
    else some slot.toNat

def cnodeLookup (cn : CNode) (idx : UInt32) : Option Cap :=
  (cnodeLookupSlot cn idx).map cn.slots

section Operations

variable {ι : Type} [DecidableEq ι]

def cnodeCopy (cns : ι → CNode) (dst : ι) (dstIdx : UInt32) (src : ι) (srcIdx : UInt32)
    (rights : UInt32) : KError × (ι → CNode) :=
  if dstIdx ≥ maxCapsPerCnode ∨ srcIdx ≥ maxCapsPerCnode then (.invalidArg, cns)
  else
    match cnodeLookup (cns src) srcIdx with
    | none => (.invalidCap, cns)
    | some sc =>
      if rights &&& ~~~sc.rights ≠ 0 then (.noRights, cns)
      else
        let derived := capDerive sc rights sc.badge
        if derived.isValid = 0 then (.invalidCap, cns)
        else if ((cns dst).slots dstIdx.toNat).isValid ≠ 0 then (.revokeNeeded, cns)
        else (.ok, Function.update cns dst ((cns dst).addSlot dstIdx.toNat derived))

def cnodeMint (cns : ι → CNode) (dst : ι) (dstIdx : UInt32) (src : ι) (srcIdx : UInt32)
    (rights badge : UInt32) : KError × (ι → CNode) :=
  if dstIdx ≥ maxCapsPerCnode ∨ srcIdx ≥ maxCapsPerCnode then (.invalidArg, cns)
  else
    match cnodeLookup (cns src) srcIdx with
    | none => (.invalidCap, cns)
    | some sc =>
      if ¬ capHasRight sc capRightsGrant then (.noRights, cns)
      else if ((cns dst).slots dstIdx.toNat).isValid ≠ 0 then (.revokeNeeded, cns)
      else
        let derived := capDerive sc rights badge
        if derived.isValid = 0 then (.invalidCap, cns)
        else (.ok, Function.update cns dst ((cns dst).addSlot dstIdx.toNat derived))

/-- `cnode_move` has no index check and leaves both `used` counters alone. -/
def cnodeMove (cns : ι → CNode) (dst : ι) (dstIdx : UInt32) (src : ι) (srcIdx : UInt32) :
    KError × (ι → CNode) :=
  match cnodeLookupSlot (cns src) srcIdx with
  | none => (.invalidCap, cns)
  | some s =>
    if ((cns dst).slots dstIdx.toNat).isValid ≠ 0 then (.revokeNeeded, cns)
    else
      let moved := Function.update cns dst
        ((cns dst).setSlot dstIdx.toNat ((cns src).slots s))
      (.ok, Function.update moved src ((moved src).setSlot s Cap.zero))

def cnodeDelete (cns : ι → CNode) (cn : ι) (idx : UInt32) : KError × (ι → CNode) :=
  if idx ≥ maxCapsPerCnode then (.invalidArg, cns)
  else if ((cns cn).slots idx.toNat).isValid = 0 then (.invalidCap, cns)
  else (.ok, Function.update cns cn ((cns cn).clearSlot idx.toNat))

end Operations

/-! ### What a lookup returns -/

/-- The slot an index names, before the slot's content is looked at. -/
def CNode.decode (cn : CNode) (idx : UInt32) : Option Nat :=
  if cn.radix = 0 ∨ cn.radix > 8 then none
  else if cn.guardSize > 0 ∧
      idx >>> cn.radix.toUInt32 ≠ cn.guard &&& (((1 : UInt32) <<< cn.guardSize.toUInt32) - 1) then
    none
  else
    let mask := ((1 : UInt32) <<< cn.radix.toUInt32) - 1
    let slot := if cn.radix = 8 then idx &&& 0xFF else idx &&& mask
    if slot ≥ maxCapsPerCnode then none else some slot.toNat

theorem cnodeLookupSlot_iff {cn : CNode} {idx : UInt32} {s : Nat} :
    cnodeLookupSlot cn idx = some s ↔
      cn.decode idx = some s ∧ (cn.slots s).isValid ≠ 0 ∧ (cn.slots s).hwCap.tag ≠ 0 := by
  unfold cnodeLookupSlot CNode.decode
  by_cases hradix : cn.radix = 0 ∨ cn.radix > 8
  · simp [hradix]
  rw [if_neg hradix, if_neg hradix]
  by_cases hguard : cn.guardSize > 0 ∧
      idx >>> cn.radix.toUInt32 ≠ cn.guard &&& (((1 : UInt32) <<< cn.guardSize.toUInt32) - 1)
  · simp [hguard]
  rw [if_neg hguard, if_neg hguard]
  simp only
  generalize (if cn.radix = 8 then idx &&& 0xFF
    else idx &&& (((1 : UInt32) <<< cn.radix.toUInt32) - 1)) = slot
  by_cases hslot : slot ≥ maxCapsPerCnode
  · simp [hslot]
  rw [if_neg hslot, if_neg hslot, Option.some.injEq]
  constructor
  · intro h
    split_ifs at h with hvalid htag
    cases h
    exact ⟨rfl, hvalid, htag⟩
  · rintro ⟨rfl, hvalid, htag⟩
    rw [if_neg hvalid, if_neg htag]

theorem CNode.decode_lt {cn : CNode} {idx : UInt32} {s : Nat} (h : cn.decode idx = some s) :
    s < 256 := by
  simp only [CNode.decode] at h
  split_ifs at h with hradix hguard h8 hslot
  all_goals
    cases h
    exact UInt32.lt_iff_toNat_lt.mp (UInt32.not_le.mp ‹_›)

theorem cnodeLookupSlot_some {cn : CNode} {idx : UInt32} {s : Nat}
    (h : cnodeLookupSlot cn idx = some s) :
    s < 256 ∧ (cn.slots s).isValid ≠ 0 ∧ (cn.slots s).hwCap.tag ≠ 0 := by
  obtain ⟨hdecode, husable⟩ := cnodeLookupSlot_iff.mp h
  exact ⟨CNode.decode_lt hdecode, husable⟩

theorem cnodeLookup_some {cn : CNode} {idx : UInt32} {c : Cap}
    (h : cnodeLookup cn idx = some c) :
    ∃ s, cnodeLookupSlot cn idx = some s ∧ cn.slots s = c ∧ s < 256 ∧ c.isValid ≠ 0 ∧
      c.hwCap.tag ≠ 0 := by
  rw [cnodeLookup, Option.map_eq_some_iff] at h
  obtain ⟨s, hs, rfl⟩ := h
  obtain ⟨hlt, hv, ht⟩ := cnodeLookupSlot_some hs
  exact ⟨s, hs, rfl, hlt, hv, ht⟩

/-! ### What one operation can do

Each operation either fails and changes nothing, or passes its guard and makes
one store.  The guards are stated in the order of the source. -/

section Cases

variable {ι : Type}

/-- The guard of `cnode_copy` for source capability `sc`. -/
def CopyAllowed (cns : ι → CNode) (dst : ι) (d : UInt32) (src : ι) (s rights : UInt32)
    (sc : Cap) : Prop :=
  (d < maxCapsPerCnode ∧ s < maxCapsPerCnode) ∧ cnodeLookup (cns src) s = some sc ∧
    RightsSubset rights sc.rights ∧ ((cns dst).slots d.toNat).isValid = 0

/-- The guard of `cnode_mint`: the source also needs GRANT. -/
def MintAllowed (cns : ι → CNode) (dst : ι) (d : UInt32) (src : ι) (s rights : UInt32)
    (sc : Cap) : Prop :=
  CopyAllowed cns dst d src s rights sc ∧ capHasRight sc capRightsGrant = true

theorem indices_lt_iff {d s : UInt32} :
    d < maxCapsPerCnode ∧ s < maxCapsPerCnode ↔ ¬ (d ≥ maxCapsPerCnode ∨ s ≥ maxCapsPerCnode) := by
  rw [not_or, ge_iff_le, ge_iff_le, UInt32.not_le, UInt32.not_le]

theorem CopyAllowed.lookup_ne_none {cns : ι → CNode} {dst src : ι} {d s rights : UInt32} {sc : Cap}
    (h : CopyAllowed cns dst d src s rights sc) : cnodeLookup (cns src) s ≠ none := by
  rw [h.2.1]
  exact Option.some_ne_none sc

theorem CopyAllowed.source {cns : ι → CNode} {dst src : ι} {d s rights : UInt32} {sc sc' : Cap}
    (h : CopyAllowed cns dst d src s rights sc') (hl : cnodeLookup (cns src) s = some sc) :
    sc' = sc := Option.some.inj (h.2.1.symm.trans hl)

variable [DecidableEq ι]

theorem cnodeCopy_cases (cns : ι → CNode) (dst : ι) (d : UInt32) (src : ι)
    (s rights : UInt32) :
    (∃ sc, CopyAllowed cns dst d src s rights sc ∧
      cnodeCopy cns dst d src s rights = (.ok, Function.update cns dst
        ((cns dst).addSlot d.toNat { sc with rights := rights }))) ∨
    ((∀ sc, ¬ CopyAllowed cns dst d src s rights sc) ∧
      ∃ e, e ≠ .ok ∧ cnodeCopy cns dst d src s rights = (e, cns)) := by
  unfold cnodeCopy
  by_cases hb : d ≥ maxCapsPerCnode ∨ s ≥ maxCapsPerCnode
  · rw [if_pos hb]
    exact Or.inr ⟨fun sc h => indices_lt_iff.mp h.1 hb, .invalidArg, by decide, rfl⟩
  rw [if_neg hb]
  have hlt := indices_lt_iff.mpr hb
  cases hl : cnodeLookup (cns src) s with
  | none => exact Or.inr ⟨fun sc h => h.lookup_ne_none hl, .invalidCap, by decide, rfl⟩
  | some sc =>
    obtain ⟨slot, -, -, -, hv, -⟩ := cnodeLookup_some hl
    by_cases hr : rights &&& ~~~sc.rights = 0
    · have hd : capDerive sc rights sc.badge = { sc with rights := rights } :=
        capDerive_of_subset hr
      by_cases hf : ((cns dst).slots d.toNat).isValid = 0
      · refine Or.inl ⟨sc, ⟨hlt, hl, (rightsSubset_iff _ _).mpr hr, hf⟩, ?_⟩
        simp [hr, hd, hv, hf]
      · refine Or.inr ⟨fun sc' h => hf h.2.2.2, .revokeNeeded, by decide, ?_⟩
        simp [hr, hd, hv, hf]
    · refine Or.inr ⟨fun sc' h => ?_, .noRights, by decide, by simp [hr]⟩
      rw [h.source hl] at h
      exact hr ((rightsSubset_iff _ _).mp h.2.2.1)

theorem cnodeMint_cases (cns : ι → CNode) (dst : ι) (d : UInt32) (src : ι)
    (s rights badge : UInt32) :
    (∃ sc, MintAllowed cns dst d src s rights sc ∧
      cnodeMint cns dst d src s rights badge = (.ok, Function.update cns dst
        ((cns dst).addSlot d.toNat { sc with rights := rights, badge := badge }))) ∨
    ((∀ sc, ¬ MintAllowed cns dst d src s rights sc) ∧
      ∃ e, e ≠ .ok ∧ cnodeMint cns dst d src s rights badge = (e, cns)) := by
  unfold cnodeMint
  by_cases hb : d ≥ maxCapsPerCnode ∨ s ≥ maxCapsPerCnode
  · rw [if_pos hb]
    exact Or.inr ⟨fun sc h => indices_lt_iff.mp h.1.1 hb, .invalidArg, by decide, rfl⟩
  rw [if_neg hb]
  have hlt := indices_lt_iff.mpr hb
  cases hl : cnodeLookup (cns src) s with
  | none => exact Or.inr ⟨fun sc h => h.1.lookup_ne_none hl, .invalidCap, by decide, rfl⟩
  | some sc =>
    obtain ⟨slot, -, -, -, hv, -⟩ := cnodeLookup_some hl
    by_cases hg : capHasRight sc capRightsGrant = true
    · by_cases hf : ((cns dst).slots d.toNat).isValid = 0
      · by_cases hr : rights &&& ~~~sc.rights = 0
        · have hd : capDerive sc rights badge = { sc with rights := rights, badge := badge } :=
            capDerive_of_subset hr
          refine Or.inl ⟨sc, ⟨⟨hlt, hl, (rightsSubset_iff _ _).mpr hr, hf⟩, hg⟩, ?_⟩
          simp [hg, hd, hv, hf]
        · -- `cap_derive` is the only check of the mask here, and it answers with an
          -- invalid capability.
          refine Or.inr ⟨fun sc' h => ?_, .invalidCap, by decide, ?_⟩
          · rw [h.1.source hl] at h
            exact hr ((rightsSubset_iff _ _).mp h.1.2.2.1)
          · simp [hg, hf, capDerive, hr]
      · refine Or.inr ⟨fun sc' h => hf h.1.2.2.2, .revokeNeeded, by decide, ?_⟩
        simp [hg, hf]
    · refine Or.inr ⟨fun sc' h => ?_, .noRights, by decide, by simp [hg]⟩
      rw [h.1.source hl] at h
      exact hg h.2

/-- The guard of `cnode_move` for source slot `slot`. -/
def MoveAllowed (cns : ι → CNode) (dst : ι) (d : UInt32) (src : ι) (s : UInt32)
    (slot : Nat) : Prop :=
  cnodeLookupSlot (cns src) s = some slot ∧ ((cns dst).slots d.toNat).isValid = 0

theorem cnodeMove_cases (cns : ι → CNode) (dst : ι) (d : UInt32) (src : ι) (s : UInt32) :
    (∃ slot moved, MoveAllowed cns dst d src s slot ∧
      moved = Function.update cns dst ((cns dst).setSlot d.toNat ((cns src).slots slot)) ∧
      cnodeMove cns dst d src s =
        (.ok, Function.update moved src ((moved src).setSlot slot Cap.zero))) ∨
    ((∀ slot, ¬ MoveAllowed cns dst d src s slot) ∧
      ∃ e, e ≠ .ok ∧ cnodeMove cns dst d src s = (e, cns)) := by
  unfold cnodeMove
  cases hl : cnodeLookupSlot (cns src) s with
  | none =>
    refine Or.inr ⟨fun slot h => ?_, .invalidCap, by decide, rfl⟩
    rw [h.1] at hl
    cases hl
  | some slot =>
    by_cases hf : ((cns dst).slots d.toNat).isValid = 0
    · exact Or.inl ⟨slot, _, ⟨hl, hf⟩, rfl, by simp [hf]⟩
    · exact Or.inr ⟨fun slot' h => hf h.2, .revokeNeeded, by decide, by simp [hf]⟩

/-- The guard of `cnode_delete`. -/
def DeleteAllowed (cns : ι → CNode) (cn : ι) (idx : UInt32) : Prop :=
  idx < maxCapsPerCnode ∧ ((cns cn).slots idx.toNat).isValid ≠ 0

theorem cnodeDelete_cases (cns : ι → CNode) (cn : ι) (idx : UInt32) :
    (DeleteAllowed cns cn idx ∧ cnodeDelete cns cn idx =
      (.ok, Function.update cns cn ((cns cn).clearSlot idx.toNat))) ∨
    (¬ DeleteAllowed cns cn idx ∧ ∃ e, e ≠ .ok ∧ cnodeDelete cns cn idx = (e, cns)) := by
  unfold cnodeDelete
  by_cases hb : idx ≥ maxCapsPerCnode
  · exact Or.inr ⟨fun h => UInt32.not_lt.mpr hb h.1, .invalidArg, by decide, by simp [hb]⟩
  by_cases hv : ((cns cn).slots idx.toNat).isValid = 0
  · exact Or.inr ⟨fun h => h.2 hv, .invalidCap, by decide, by simp [hb, hv]⟩
  · exact Or.inl ⟨⟨UInt32.not_le.mp hb, hv⟩, by simp [hb, hv]⟩

end Cases

end Moonlight
