/-
The invariant stated beside `cap_t`: a valid capability is tagged and sealed, and its
object type matches its type.

`cap_retype` computes the object type as `OTYPE_FRAME + (new_type - CAP_FRAME)`.  The
two enumerations are ordered differently, so they meet at Frame and nowhere else among
the types that have an object type.
-/
import Moonlight.Syscall.Retype

namespace Moonlight

/-- The `OTYPE_` constants. -/
def CapType.otype : CapType → Option UInt32
  | .cnode => some 0x100
  | .tcb => some 0x101
  | .vspace => some 0x102
  | .endpoint => some 0x103
  | .notification => some 0x104
  | .frame => some otypeFrame
  | .schedContext => some 0x106
  | .timePartition => some 0x107
  | _ => none

structure Cap.Sealed (c : Cap) : Prop where
  tag : c.hwCap.tag = 1
  sealed : c.hwCap.sealed = 1
  otype : ∀ o, c.type.otype = some o → c.hwCap.otype = o

/-- Every valid capability of the CNode is sealed under its type. -/
def CNode.Sealed (cn : CNode) : Prop :=
  ∀ i, i < maxCapsPerCnode.toNat → (cn.slots i).isValid ≠ 0 → (cn.slots i).Sealed

/-- The five invocations that make, move or remove capabilities. -/
def InvokeOp.OnCaps (op : InvokeOp) : Prop :=
  op = .untypedRetype ∨ op = .cnodeCopy ∨ op = .cnodeMint ∨ op = .cnodeMove ∨ op = .cnodeDelete

/-- The types whose object type differs from the one `cap_retype` computes. -/
def CapType.Mislabelled (t : CapType) : Prop :=
  t = .cnode ∨ t = .tcb ∨ t = .vspace ∨ t = .endpoint ∨ t = .notification ∨ t = .schedContext ∨
    t = .timePartition

theorem retypeOtype_matches_iff (t : CapType) :
    (∀ o, t.otype = some o → otypeFrame + (t.val - CapType.frame.val) = o) ↔
      ¬ t.Mislabelled := by
  unfold CapType.Mislabelled
  cases t with
  | unknown v h => simp [CapType.otype]
  | _ => simp [CapType.otype, CapType.val, otypeFrame]

/-! ### One slot -/

theorem Cap.Sealed.of_hwCap {c c' : Cap} (h : c.Sealed) (htype : c'.type = c.type)
    (hhw : c'.hwCap = c.hwCap) : c'.Sealed := by
  refine ⟨?_, ?_, ?_⟩
  · rw [hhw]
    exact h.tag
  · rw [hhw]
    exact h.sealed
  · rw [htype, hhw]
    exact h.otype

theorem capRetype_sealed_iff {untyped : Cap} {newType : CapType} {size : UInt64}
    (h : capCanRetype untyped newType size = true) (paddr : UInt64) :
    (capRetype untyped newType paddr size).Sealed ↔ ¬ newType.Mislabelled := by
  rw [← retypeOtype_matches_iff, capRetype, if_pos h]
  exact ⟨fun hs => hs.otype, fun ho => ⟨rfl, rfl, ho⟩⟩

theorem CNode.Sealed.setSlot {cn : CNode} (h : cn.Sealed) {c : Cap}
    (hc : c.isValid ≠ 0 → c.Sealed) (i : Nat) : (cn.setSlot i c).Sealed := by
  intro j hj hvalid
  by_cases hji : j = i
  · subst hji
    rw [CNode.setSlot_self] at hvalid ⊢
    exact hc hvalid
  · rw [CNode.setSlot_ne hji] at hvalid ⊢
    exact h j hj hvalid

theorem CNode.Sealed.addSlot {cn : CNode} (h : cn.Sealed) {c : Cap} (hc : c.Sealed) (i : Nat) :
    (cn.addSlot i c).Sealed :=
  h.setSlot (fun _ => hc) i

theorem CNode.Sealed.lookup {cn : CNode} (h : cn.Sealed) {idx : UInt32} {c : Cap}
    (hc : cnodeLookup cn idx = some c) : c.Sealed := by
  obtain ⟨s, -, rfl, hs, hvalid, -⟩ := cnodeLookup_some hc
  exact h s hs hvalid

theorem CNode.Sealed.setZero {cn : CNode} (h : cn.Sealed) (i : Nat) :
    (cn.setSlot i Cap.zero).Sealed :=
  h.setSlot (fun hvalid => absurd rfl hvalid) i

/-! ### One invocation -/

section
variable {k : Kernel} (h : k.root.Sealed) (cap : Cap) (arg1 arg2 arg3 : UInt64)
include h

theorem handleInvoke_copy_sealed :
    (handleInvoke k cap .cnodeCopy arg1 arg2 arg3).2.root.Sealed := by
  obtain ⟨sc, -, hallowed, heq⟩ | ⟨-, e, -, heq⟩ := handleInvoke_copy_cases k cap arg1 arg2 arg3
  · rw [heq, Kernel.setRoot_root]
    apply h.addSlot
    exact (h.lookup hallowed.2.1).of_hwCap rfl rfl
  · rw [heq]
    exact h

theorem handleInvoke_mint_sealed :
    (handleInvoke k cap .cnodeMint arg1 arg2 arg3).2.root.Sealed := by
  obtain ⟨sc, -, hallowed, heq⟩ | ⟨-, e, -, heq⟩ := handleInvoke_mint_cases k cap arg1 arg2 arg3
  · rw [heq, Kernel.setRoot_root]
    apply h.addSlot
    exact (h.lookup hallowed.1.2.1).of_hwCap rfl rfl
  · rw [heq]
    exact h

theorem handleInvoke_move_sealed :
    (handleInvoke k cap .cnodeMove arg1 arg2 arg3).2.root.Sealed := by
  obtain ⟨slot, -, hallowed, heq⟩ | ⟨-, e, -, heq⟩ := handleInvoke_move_cases k cap arg1 arg2 arg3
  · obtain ⟨hslot, -⟩ := cnodeLookupSlot_some hallowed.1
    rw [heq, Kernel.setRoot_root]
    exact (h.setSlot (h slot hslot) _).setZero slot
  · rw [heq]
    exact h

theorem handleInvoke_delete_sealed :
    (handleInvoke k cap .cnodeDelete arg1 arg2 arg3).2.root.Sealed := by
  obtain ⟨-, heq⟩ | ⟨-, e, -, heq⟩ := handleInvoke_delete_cases k cap arg1 arg2 arg3
  · rw [heq, Kernel.setRoot_root]
    exact h.setZero _
  · rw [heq]
    exact h

theorem handleInvoke_retype_sealed_iff :
    (handleInvoke k cap .untypedRetype arg1 arg2 arg3).2.root.Sealed ↔
      ¬ (RetypeAllowed k cap arg1 arg2 arg3 ∧ (CapType.ofWord arg2).Mislabelled) := by
  obtain ⟨hallowed, heq⟩ | ⟨hnot, e, -, heq⟩ := handleInvoke_retype_cases k cap arg1 arg2 arg3
  · have hlabel := capRetype_sealed_iff hallowed.2.1 cap.u.untypedPaddr
    rw [heq, Kernel.retype_root, not_and]
    have hdest : (retypeDest arg1).toNat < maxCapsPerCnode.toNat :=
      UInt32.lt_iff_toNat_lt.mp (retypeDest_lt arg1)
    constructor
    · intro hs _
      apply hlabel.mp
      have hnew := hs _ hdest
      rw [CNode.addSlot, CNode.setSlot_self] at hnew
      refine hnew ?_
      rw [capRetype_isValid hallowed.2.1]
      decide
    · intro hnot
      exact h.addSlot (hlabel.mpr (hnot hallowed)) _
  · rw [heq]
    exact ⟨fun _ hbad => hnot hbad.1, fun _ => h⟩

end

/-- An invocation on capabilities keeps the invariant if and only if it is not a retype
that passes the checks and asks for one of the seven mislabelled types. -/
theorem invocation_keeps_sealed_iff {k : Kernel} (h : k.root.Sealed) (cap : Cap) {op : InvokeOp}
    (hop : op.OnCaps) (arg1 arg2 arg3 : UInt64) :
    (handleInvoke k cap op arg1 arg2 arg3).2.root.Sealed ↔
      ¬ (op = .untypedRetype ∧ RetypeAllowed k cap arg1 arg2 arg3 ∧
        (CapType.ofWord arg2).Mislabelled) := by
  rcases hop with rfl | rfl | rfl | rfl | rfl
  · rw [handleInvoke_retype_sealed_iff h, eq_self_iff_true, true_and]
  · exact iff_of_true (handleInvoke_copy_sealed h cap arg1 arg2 arg3) fun hbad => by cases hbad.1
  · exact iff_of_true (handleInvoke_mint_sealed h cap arg1 arg2 arg3) fun hbad => by cases hbad.1
  · exact iff_of_true (handleInvoke_move_sealed h cap arg1 arg2 arg3) fun hbad => by cases hbad.1
  · exact iff_of_true (handleInvoke_delete_sealed h cap arg1 arg2 arg3) fun hbad => by cases hbad.1

/-- The root CNode holds the boot Untyped in slot 5 and nothing else. -/
def untypedKernel : Kernel := blankKernel.setRoot (blankKernel.root.addSlot 5 bootUntyped)

theorem untypedKernel_sealed : untypedKernel.root.Sealed := by
  have hblank : blankKernel.root.Sealed := fun _ _ hvalid => absurd rfl hvalid
  have hboot : bootUntyped.Sealed := ⟨rfl, rfl, fun o ho => by cases ho⟩
  rw [untypedKernel, Kernel.setRoot_root]
  exact hblank.addSlot hboot 5

/-- Retyping to a Frame in slot 6 keeps it. -/
theorem invocation_keeps_sealed_frame :
    (handleInvoke untypedKernel bootUntyped .untypedRetype 0x600 5 4096).2.root.Sealed := by
  refine (invocation_keeps_sealed_iff untypedKernel_sealed bootUntyped (Or.inl rfl) _ _ _).mpr ?_
  intro hkeeps
  obtain ⟨-, -, hbad⟩ := hkeeps
  revert hbad
  unfold CapType.Mislabelled
  decide

/-- Retyping to an Endpoint seals it with `0x106`, the constant of scheduling
contexts. -/
theorem invocation_mislabels_endpoint :
    untypedKernel.root.Sealed ∧
      ¬ (handleInvoke untypedKernel bootUntyped .untypedRetype 0x600 6 4096).2.root.Sealed := by
  refine ⟨untypedKernel_sealed, fun h => ?_⟩
  have hslot := (h 6 (by decide) (by decide +kernel)).otype 0x103 (by decide +kernel)
  revert hslot
  decide +kernel

end Moonlight
