/-
CNode invocations confine authority.

Every capability that copy, mint, move and delete leave in the root CNode goes
back to one that was there at the start: same object, no new rights, and a new
badge only under a capability with GRANT.  The origin relation is preserved by
each of the four operations, so it holds along chains of any length.
-/
import Moonlight.Lib.Run
import Moonlight.Syscall.Kernel

namespace Moonlight

/-- `c` designates what `o` designates, with no more authority. -/
structure OriginOf (o c : Cap) : Prop where
  type_eq : c.type = o.type
  u_eq : c.u = o.u
  hwCap_eq : c.hwCap = o.hwCap
  rights : RightsSubset c.rights o.rights
  badge : c.badge ≠ o.badge → capHasRight o capRightsGrant = true

/-- Every valid slot of `cn` has an origin in `start`. -/
def HasOrigins (start cn : CNode) : Prop :=
  ∀ i, i < 256 → (cn.slots i).isValid ≠ 0 →
    ∃ j, j < 256 ∧ (start.slots j).isValid ≠ 0 ∧ OriginOf (start.slots j) (cn.slots i)

theorem originOf_refl (c : Cap) : OriginOf c c :=
  ⟨rfl, rfl, rfl, rightsSubset_refl c.rights, fun h => absurd rfl h⟩

/-- Taking away rights keeps the origin. -/
theorem OriginOf.copy {o c : Cap} (h : OriginOf o c) {rights : UInt32}
    (hr : RightsSubset rights c.rights) : OriginOf o { c with rights := rights } :=
  ⟨h.type_eq, h.u_eq, h.hwCap_eq, rightsSubset_trans hr h.rights, h.badge⟩

/-- A new badge needs GRANT, which the origin then has as well. -/
theorem OriginOf.mint {o c : Cap} (h : OriginOf o c) {rights : UInt32}
    (hr : RightsSubset rights c.rights) (hg : capHasRight c capRightsGrant = true)
    (badge : UInt32) : OriginOf o { c with rights := rights, badge := badge } :=
  ⟨h.type_eq, h.u_eq, h.hwCap_eq, rightsSubset_trans hr h.rights,
    fun _ => capHasRight_mono h.rights hg⟩

/-- The origin of a capability the kernel accepts is one it accepts. -/
theorem OriginOf.capIsValid {o c : Cap} (h : OriginOf o c) (ho : o.isValid ≠ 0)
    (hc : capIsValid c = true) : capIsValid o = true := by
  simp only [Moonlight.capIsValid, Bool.and_eq_true, decide_eq_true_eq] at hc ⊢
  rw [← h.type_eq, ← h.hwCap_eq]
  exact ⟨⟨ho, hc.1.2⟩, hc.2⟩

section
variable {start cn : CNode}

theorem HasOrigins.setSlot (h : HasOrigins start cn) {d : Nat} {c : Cap}
    (hc : c.isValid ≠ 0 → ∃ j, j < 256 ∧ (start.slots j).isValid ≠ 0 ∧
      OriginOf (start.slots j) c) : HasOrigins start (cn.setSlot d c) := by
  intro i hi hv
  by_cases hid : i = d
  · subst hid
    rw [CNode.setSlot_self] at hv ⊢
    exact hc hv
  · rw [CNode.setSlot_ne hid] at hv ⊢
    exact h i hi hv

theorem HasOrigins.clear (h : HasOrigins start cn) (d : Nat) :
    HasOrigins start (cn.setSlot d Cap.zero) :=
  h.setSlot fun hv => absurd rfl hv

theorem HasOrigins.lookup (h : HasOrigins start cn) {idx : UInt32} {c : Cap}
    (hl : cnodeLookup cn idx = some c) :
    ∃ j, j < 256 ∧ (start.slots j).isValid ≠ 0 ∧ OriginOf (start.slots j) c := by
  obtain ⟨s, -, rfl, hlt, hv, -⟩ := cnodeLookup_some hl
  exact h s hlt hv

end

/-- The four invocations on the root CNode. -/
inductive CnodeOp where
  | copy
  | mint
  | move
  | delete

def CnodeOp.toInvokeOp : CnodeOp → InvokeOp
  | .copy => .cnodeCopy
  | .mint => .cnodeMint
  | .move => .cnodeMove
  | .delete => .cnodeDelete

structure CnodeInvocation where
  cap : Cap
  op : CnodeOp
  arg1 : UInt64
  arg2 : UInt64
  arg3 : UInt64

def cnodeInvocationStep (k : Kernel) (i : CnodeInvocation) : Kernel :=
  (handleInvoke k i.cap i.op.toInvokeOp i.arg1 i.arg2 i.arg3).2

theorem cnodeInvocationStep_origins {start : CNode} {k : Kernel} (i : CnodeInvocation)
    (h : HasOrigins start k.root) : HasOrigins start (cnodeInvocationStep k i).root := by
  obtain ⟨cap, op, arg1, arg2, arg3⟩ := i
  unfold cnodeInvocationStep
  cases op with
  | copy =>
    obtain ⟨sc, -, ⟨-, hl, hr, -⟩, heq⟩ | ⟨-, e, -, heq⟩ :=
      handleInvoke_copy_cases k cap arg1 arg2 arg3
    · obtain ⟨j, hj, hv, ho⟩ := h.lookup hl
      simp only [CnodeOp.toInvokeOp, heq, Kernel.setRoot_root]
      exact h.setSlot fun _ => ⟨j, hj, hv, ho.copy hr⟩
    · simp only [CnodeOp.toInvokeOp, heq]
      exact h
  | mint =>
    obtain ⟨sc, -, ⟨⟨-, hl, hr, -⟩, hg⟩, heq⟩ | ⟨-, e, -, heq⟩ :=
      handleInvoke_mint_cases k cap arg1 arg2 arg3
    · obtain ⟨j, hj, hv, ho⟩ := h.lookup hl
      simp only [CnodeOp.toInvokeOp, heq, Kernel.setRoot_root]
      exact h.setSlot fun _ => ⟨j, hj, hv, ho.mint hr hg _⟩
    · simp only [CnodeOp.toInvokeOp, heq]
      exact h
  | move =>
    obtain ⟨slot, -, ⟨hl, -⟩, heq⟩ | ⟨-, e, -, heq⟩ :=
      handleInvoke_move_cases k cap arg1 arg2 arg3
    · obtain ⟨hlt, hv, -⟩ := cnodeLookupSlot_some hl
      simp only [CnodeOp.toInvokeOp, heq, Kernel.setRoot_root]
      exact (h.setSlot fun _ => h slot hlt hv).clear slot
    · simp only [CnodeOp.toInvokeOp, heq]
      exact h
  | delete =>
    obtain ⟨-, heq⟩ | ⟨-, e, -, heq⟩ := handleInvoke_delete_cases k cap arg1 arg2 arg3
    · simp only [CnodeOp.toInvokeOp, heq, Kernel.setRoot_root]
      exact h.clear _
    · simp only [CnodeOp.toInvokeOp, heq]
      exact h

/-- After any run of CNode invocations every valid capability of the root CNode
has an origin among the valid capabilities it held before. -/
theorem cnode_invocations_confined (k : Kernel) (is : List CnodeInvocation) :
    let k' := Run.exec cnodeInvocationStep k is
    HasOrigins k.root k'.root ∧
    ∀ i, i < 256 → capIsValid (k'.root.slots i) = true →
      ∃ j, j < 256 ∧ capIsValid (k.root.slots j) = true ∧
        OriginOf (k.root.slots j) (k'.root.slots i) := by
  intro k'
  have hstart : HasOrigins k.root k.root := fun i hi hv => ⟨i, hi, hv, originOf_refl _⟩
  have hstep : ∀ (k₁ : Kernel) (i : CnodeInvocation), HasOrigins k.root k₁.root →
      HasOrigins k.root (cnodeInvocationStep k₁ i).root :=
    fun _ i h => cnodeInvocationStep_origins i h
  have horigins : HasOrigins k.root k'.root := Run.exec_invariant_of_forall hstep is hstart
  refine ⟨horigins, ?_⟩
  intro i hi hv
  have hvalid : (k'.root.slots i).isValid ≠ 0 := by
    simp only [capIsValid, Bool.and_eq_true, decide_eq_true_eq] at hv
    exact hv.1.1
  obtain ⟨j, hj, hjv, ho⟩ := horigins i hi hvalid
  exact ⟨j, hj, ho.capIsValid hjv hv, ho⟩

end Moonlight
