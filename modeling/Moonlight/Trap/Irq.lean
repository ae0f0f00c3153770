/-
Interrupt lines and their owners.

The table says which thread a line is bound to, and a mask beside it holds one pending
bit per line.  `irq_bind` and `irq_unbind` write the table, `irq_handle` the mask, and no
function clears a bit of the mask: a line that is unbound while it is pending stays so,
and its next owner finds the interrupt of the one before.
-/
import Moonlight.Capability.Cap
import Moonlight.Kernel.Types
import Moonlight.Lib.Run
import Moonlight.Lib.Word

namespace Moonlight

def maxIrqs : UInt32 := 64

/-- `irq_entry_t`. -/
structure IrqEntry where
  valid : Bool
  bound : Bool
  irqNum : UInt32
  ownerTcb : UInt32
  notificationCap : UInt32
  badge : UInt32
  partitionId : UInt32

def IrqEntry.zero : IrqEntry :=
  { valid := false, bound := false, irqNum := 0, ownerTcb := 0, notificationCap := 0, badge := 0,
    partitionId := 0 }

/-- `irq_state_t`; the array `pending_mask` has one word. -/
structure IrqState where
  irqs : Nat → IrqEntry
  pendingMask : UInt64

def IrqState.zero : IrqState := { irqs := fun _ => IrqEntry.zero, pendingMask := 0 }

/-- `u.irq.irq`, the low word at offset 0. -/
def Payload.irqIrq (u : Payload) : UInt32 := u.w0.toUInt32

/-- `irq_bind` with non-null pointers. -/
def irqBind (is : IrqState) (irqCap : Cap) (tcbId ntfnCptr badge : UInt32) : KError × IrqState :=
  if irqCap.type ≠ .irq then (.invalidCap, is)
  else if irqCap.isValid = 0 then (.invalidCap, is)
  else
    let irq := irqCap.u.irqIrq
    if irq ≥ maxIrqs then (.invalidArg, is)
    else if (is.irqs irq.toNat).bound then (.revokeNeeded, is)
    else
      (.ok,
        { is with
          irqs := Function.update is.irqs irq.toNat
            { is.irqs irq.toNat with
              valid := true, bound := true, irqNum := irq, ownerTcb := tcbId,
              notificationCap := ntfnCptr, badge := badge } })

def irqUnbind (is : IrqState) (irqNum : UInt32) : KError × IrqState :=
  if irqNum ≥ maxIrqs then (.invalidArg, is)
  else if (is.irqs irqNum.toNat).bound = false then (.invalidArg, is)
  else (.ok, { is with irqs := Function.update is.irqs irqNum.toNat IrqEntry.zero })

def irqHandle (is : IrqState) (irqNum : UInt32) : IrqState :=
  if irqNum ≥ maxIrqs then is
  else if (is.irqs irqNum.toNat).bound = false then is
  else { is with pendingMask := is.pendingMask ||| 1 <<< (irqNum % 64).toUInt64 }

def irqIsPending (is : IrqState) (irqNum : UInt32) : Bool :=
  if irqNum ≥ maxIrqs then false
  else (is.pendingMask >>> (irqNum % 64).toUInt64) &&& 1 ≠ 0

/-- The line exists and has an owner. -/
def IrqState.Bound (is : IrqState) (irqNum : UInt32) : Prop :=
  irqNum < maxIrqs ∧ (is.irqs irqNum.toNat).bound = true

/-! ### What one call can do -/

theorem irqBind_cases (is : IrqState) (irqCap : Cap) (tcbId ntfnCptr badge : UInt32) :
    (∃ e, e ≠ .ok ∧ irqBind is irqCap tcbId ntfnCptr badge = (e, is)) ∨
    (irqCap.u.irqIrq < maxIrqs ∧ ¬ is.Bound irqCap.u.irqIrq ∧
      ∃ entry, entry.bound = true ∧ irqBind is irqCap tcbId ntfnCptr badge =
        (.ok, { is with irqs := Function.update is.irqs irqCap.u.irqIrq.toNat entry })) := by
  unfold irqBind
  by_cases htype : irqCap.type ≠ .irq
  · exact Or.inl ⟨.invalidCap, by decide, if_pos htype⟩
  by_cases hvalid : irqCap.isValid = 0
  · exact Or.inl ⟨.invalidCap, by decide, by rw [if_neg htype, if_pos hvalid]⟩
  by_cases hnum : irqCap.u.irqIrq ≥ maxIrqs
  · exact Or.inl ⟨.invalidArg, by decide, by rw [if_neg htype, if_neg hvalid]; exact if_pos hnum⟩
  rw [if_neg htype, if_neg hvalid]
  simp only
  rw [if_neg hnum]
  by_cases hbound : (is.irqs irqCap.u.irqIrq.toNat).bound = true
  · exact Or.inl ⟨.revokeNeeded, by decide, if_pos hbound⟩
  · rw [if_neg hbound]
    exact Or.inr ⟨UInt32.not_le.mp hnum, fun h => hbound h.2, _, rfl, rfl⟩

theorem irqUnbind_cases (is : IrqState) (irqNum : UInt32) :
    (¬ is.Bound irqNum ∧ irqUnbind is irqNum = (.invalidArg, is)) ∨
    (is.Bound irqNum ∧ irqUnbind is irqNum =
      (.ok, { is with irqs := Function.update is.irqs irqNum.toNat IrqEntry.zero })) := by
  unfold irqUnbind
  split_ifs with hnum hbound
  · exact Or.inl ⟨fun h => UInt32.not_lt.mpr hnum h.1, rfl⟩
  · exact Or.inl ⟨fun h => Bool.false_ne_true (hbound.symm.trans h.2), rfl⟩
  · exact Or.inr ⟨⟨UInt32.not_le.mp hnum, by simpa using hbound⟩, rfl⟩

theorem irqHandle_cases (is : IrqState) (irqNum : UInt32) :
    (¬ is.Bound irqNum ∧ irqHandle is irqNum = is) ∨
    (is.Bound irqNum ∧ irqHandle is irqNum =
      { is with pendingMask := is.pendingMask ||| 1 <<< (irqNum % 64).toUInt64 }) := by
  unfold irqHandle
  split_ifs with hnum hbound
  · exact Or.inl ⟨fun h => UInt32.not_lt.mpr hnum h.1, rfl⟩
  · exact Or.inl ⟨fun h => Bool.false_ne_true (hbound.symm.trans h.2), rfl⟩
  · exact Or.inr ⟨⟨UInt32.not_le.mp hnum, by simpa using hbound⟩, rfl⟩

theorem irqHandle_of_not_bound {is : IrqState} {irqNum : UInt32} (h : ¬ is.Bound irqNum) :
    irqHandle is irqNum = is := by
  rcases irqHandle_cases is irqNum with ⟨-, heq⟩ | ⟨hbound, -⟩
  · exact heq
  · exact absurd hbound h

/-- The table does not decide what is pending. -/
@[simp] theorem irqIsPending_irqs (is : IrqState) (irqs : Nat → IrqEntry) (n : UInt32) :
    irqIsPending { is with irqs := irqs } n = irqIsPending is n := rfl

theorem bound_update_ne (is : IrqState) {n k : UInt32} (h : n ≠ k) (entry : IrqEntry) :
    IrqState.Bound { is with irqs := Function.update is.irqs k.toNat entry } n ↔ is.Bound n := by
  have hne : n.toNat ≠ k.toNat := fun he => h (UInt32.toNat_inj.mp he)
  rw [IrqState.Bound, IrqState.Bound]
  simp only [Function.update_of_ne hne]

theorem toNat_line {n : UInt32} (h : n < maxIrqs) : (n % 64).toUInt64.toNat % 64 = n.toNat := by
  have hlt : n.toNat < 64 := UInt32.lt_iff_toNat_lt.mp h
  rw [UInt32.toNat_toUInt64, UInt32.toNat_mod]
  show n.toNat % 64 % 64 = n.toNat
  omega

/-- Handling an interrupt makes its line pending and no other. -/
theorem irqIsPending_handle {is : IrqState} {irqNum : UInt32} (h : is.Bound irqNum) (n : UInt32) :
    irqIsPending (irqHandle is irqNum) n = true ↔ n = irqNum ∨ irqIsPending is n = true := by
  rcases irqHandle_cases is irqNum with ⟨hnot, -⟩ | ⟨-, heq⟩
  · exact absurd h hnot
  rw [heq]
  unfold irqIsPending
  by_cases hn : n ≥ maxIrqs
  · have hne : n ≠ irqNum := fun he => UInt32.not_lt.mpr hn (he ▸ h.1)
    simp [hn, hne]
  · rw [if_neg hn, if_neg hn, decide_eq_true_iff, decide_eq_true_iff, Word.bit_set_iff,
      toNat_line h.1, toNat_line (UInt32.not_le.mp hn), UInt32.toNat_inj, eq_comm]

/-! ### Runs -/

inductive IrqCall where
  | bind (irqCap : Cap) (tcbId ntfnCptr badge : UInt32)
  | unbind (irqNum : UInt32)
  | handle (irqNum : UInt32)

/-- The interrupt state, and for every line whether `irq_handle` has been called for it
since its last binding was made. -/
structure IrqHistory where
  irq : IrqState
  handled : Nat → Bool

namespace IrqHistory

def start : IrqHistory := { irq := IrqState.zero, handled := fun _ => false }

def step (h : IrqHistory) : IrqCall → IrqHistory
  | .bind irqCap tcbId ntfnCptr badge =>
      let r := irqBind h.irq irqCap tcbId ntfnCptr badge
      { irq := r.2
        handled := if r.1 = .ok then Function.update h.handled irqCap.u.irqIrq.toNat false
          else h.handled }
  | .unbind irqNum => { h with irq := (irqUnbind h.irq irqNum).2 }
  | .handle irqNum =>
      { irq := irqHandle h.irq irqNum, handled := Function.update h.handled irqNum.toNat true }

/-- The interrupt of the line was handled for its present owner. -/
def Raised (h : IrqHistory) (n : UInt32) : Prop := h.irq.Bound n ∧ h.handled n.toNat = true

/-- What is pending is what was raised for the present owners. -/
def FollowsBinding (h : IrqHistory) : Prop := ∀ n, irqIsPending h.irq n = true ↔ h.Raised n

/-- The call does not unbind a line with a raised interrupt. -/
def Quiet (h : IrqHistory) : IrqCall → Prop
  | .bind _ _ _ _ => True
  | .unbind irqNum => ¬ h.Raised irqNum
  | .handle _ => True

variable {h : IrqHistory}

theorem followsBinding_bind (hf : h.FollowsBinding) (irqCap : Cap) (tcbId ntfnCptr badge : UInt32) :
    (h.step (.bind irqCap tcbId ntfnCptr badge)).FollowsBinding := by
  unfold step
  rcases irqBind_cases h.irq irqCap tcbId ntfnCptr badge with
    ⟨e, hne, heq⟩ | ⟨hlt, hfree, entry, hentry, heq⟩
  · simp only [heq, if_neg hne]
    exact hf
  · simp only [heq, if_true]
    intro n
    simp only [Raised, irqIsPending_irqs]
    rw [hf n]
    by_cases hn : n = irqCap.u.irqIrq
    · -- the line had no owner, and the new one has seen no interrupt
      subst hn
      simp [Raised, hfree]
    · have hne : n.toNat ≠ irqCap.u.irqIrq.toNat := fun he => hn (UInt32.toNat_inj.mp he)
      rw [bound_update_ne h.irq hn, Function.update_of_ne hne]
      rfl

theorem followsBinding_handle (hf : h.FollowsBinding) (irqNum : UInt32) :
    (h.step (.handle irqNum)).FollowsBinding := by
  intro n
  show irqIsPending (irqHandle h.irq irqNum) n = true ↔
    (irqHandle h.irq irqNum).Bound n ∧ Function.update h.handled irqNum.toNat true n.toNat = true
  have hsame : (irqHandle h.irq irqNum).Bound n ↔ h.irq.Bound n := by
    rcases irqHandle_cases h.irq irqNum with ⟨-, heq⟩ | ⟨-, heq⟩
    · rw [heq]
    · rw [heq]
      exact Iff.rfl
  by_cases hbound : h.irq.Bound irqNum
  · rw [irqIsPending_handle hbound, hf n, hsame]
    by_cases hn : n = irqNum
    · subst hn
      simp [hbound]
    · rw [Function.update_of_ne fun he => hn (UInt32.toNat_inj.mp he)]
      simp [hn, Raised]
  · rw [hsame, irqHandle_of_not_bound hbound, hf n]
    by_cases hn : n = irqNum
    · subst hn
      simp [Raised, hbound]
    · rw [Function.update_of_ne fun he => hn (UInt32.toNat_inj.mp he)]
      rfl

theorem followsBinding_unbind_iff (hf : h.FollowsBinding) (irqNum : UInt32) :
    (h.step (.unbind irqNum)).FollowsBinding ↔ ¬ h.Raised irqNum := by
  unfold step
  rcases irqUnbind_cases h.irq irqNum with ⟨hfree, heq⟩ | ⟨hbound, heq⟩
  · simp only [heq]
    exact ⟨fun _ hr => hfree hr.1, fun _ => hf⟩
  · simp only [heq]
    have hgone : ¬ IrqState.Bound
        { h.irq with irqs := Function.update h.irq.irqs irqNum.toNat IrqEntry.zero } irqNum := by
      simp [IrqState.Bound, IrqEntry.zero]
    constructor
    · -- the bit is still set, and the line has no owner
      intro hafter hr
      exact hgone ((hafter irqNum).mp ((hf irqNum).mpr hr)).1
    · intro hnot n
      simp only [Raised, irqIsPending_irqs]
      rw [hf n]
      by_cases hn : n = irqNum
      · subst hn
        exact iff_of_false hnot fun hr => hgone hr.1
      · rw [bound_update_ne h.irq hn]
        rfl

theorem step_followsBinding_iff (hf : h.FollowsBinding) (c : IrqCall) :
    (h.step c).FollowsBinding ↔ h.Quiet c := by
  cases c with
  | bind irqCap tcbId ntfnCptr badge =>
    exact iff_of_true (followsBinding_bind hf irqCap tcbId ntfnCptr badge) trivial
  | unbind irqNum => exact followsBinding_unbind_iff hf irqNum
  | handle irqNum => exact iff_of_true (followsBinding_handle hf irqNum) trivial

theorem start_followsBinding : start.FollowsBinding := by
  intro n
  have hnot : ¬ start.Raised n := by
    rintro ⟨-, hhandled⟩
    cases hhandled
  refine iff_of_false (fun hp => ?_) hnot
  unfold irqIsPending at hp
  split_ifs at hp
  have hbit := (Word.shiftRight_and_one_ne_zero_iff _ _).mp (of_decide_eq_true hp)
  exact Bool.false_ne_true ((Nat.zero_testBit _).symm.trans hbit)

end IrqHistory

/-- The pending bits follow the bindings all along a run exactly when the run never
unbinds a line whose interrupt was raised for its owner. -/
theorem irq_follows_binding_iff (calls : List IrqCall) :
    (∀ done, done <+: calls →
      (Run.exec IrqHistory.step IrqHistory.start done).FollowsBinding) ↔
    Run.Guarded IrqHistory.step IrqHistory.Quiet IrqHistory.start calls := by
  apply Run.exec_forall_prefix_iff (P := IrqHistory.FollowsBinding)
  · intro h c hf
    exact IrqHistory.step_followsBinding_iff hf c
  · exact IrqHistory.start_followsBinding

/-- The capability for line 5 of the test program. -/
def irqLineFive : Cap :=
  { Cap.zero with type := .irq, isValid := 1, u := { Payload.zero with w0 := 5 } }

/-- Thread 10 takes line 5, an interrupt arrives, and the line goes to thread 11. -/
def passedLine : List IrqCall :=
  [.bind irqLineFive 10 1 99, .handle 5, .unbind 5, .bind irqLineFive 11 1 99]

/-- Thread 11 owns the line, no interrupt has arrived since, and the line is pending. -/
theorem irq_pending_inherited :
    ((Run.exec IrqHistory.step IrqHistory.start passedLine).irq.irqs 5).ownerTcb = 11 ∧
      (Run.exec IrqHistory.step IrqHistory.start passedLine).handled 5 = false ∧
      irqIsPending (Run.exec IrqHistory.step IrqHistory.start passedLine).irq 5 = true ∧
      ¬ (Run.exec IrqHistory.step IrqHistory.start passedLine).FollowsBinding := by
  have hpending :
      irqIsPending (Run.exec IrqHistory.step IrqHistory.start passedLine).irq 5 = true := by
    decide +kernel
  refine ⟨by decide +kernel, by decide +kernel, hpending, fun hf => ?_⟩
  exact absurd ((hf 5).mp hpending).2 (by decide +kernel)

end Moonlight
