/-
Ambient authority.

A thread without capabilities gets nowhere through its own CSpace, but
`SYS_INVOKE` with capability pointer zero falls back to the root CNode.  The slot
looked up there is the first argument, whose low byte is the operation as well.
The syscall then does whatever `handle_invoke` does with the root's capability;
`InvokeEffect` lists, operation by operation, when that changes the state.
-/
import Moonlight.Syscall.Boot
import Moonlight.Syscall.Handler

namespace Moonlight

/-- The root CNode, the MDB, the endpoints, the TCBs and the scheduler are as they
were. -/
structure Unchanged (k k' : Kernel) : Prop where
  root : k'.root = k.root
  mdb : k'.mdb = k.mdb
  endpoints : k'.endpoints = k.endpoints
  tcbs : k'.tcbs = k.tcbs
  heapTcbs : k'.heapTcbs = k.heapTcbs
  sched : k'.sched = k.sched

/-- The thread already is as `tcb_configure` would leave it. -/
def IsConfigured (t : Tcb) (vspaceRoot : UInt64) (asid partition : UInt32) : Prop :=
  t.cspace = some .root ∧ t.vspaceRoot = vspaceRoot ∧ t.asid = asid ∧
    t.timePartition = partition ∧ t.state = .inactive

/-- The context already is as `sched_context_bind` would leave it. -/
def IsBound (c : SchedContext) (tcbId partId : UInt32) (budget period : UInt64)
    (prio : UInt8) : Prop :=
  c.bound = true ∧ c.tcbId = tcbId ∧ c.partitionId = partId ∧ c.budgetUs = budget ∧
    c.periodUs = period ∧ c.priority = prio ∧ c.remainingUs = budget ∧ c.deadline = period

/-- The capability designates a thread. -/
def IsTcbCap (cap : Cap) : Prop :=
  capIsValid cap = true ∧ cap.type = .tcb ∧ cap.u.tcbPtr ≠ 0

def ConfigureEffect (k : Kernel) (cap : Cap) (arg1 arg2 arg3 : UInt64) : Prop :=
  IsTcbCap cap ∧
    (∃ c, cnodeLookup k.root ((arg1 >>> 16) &&& 0xFF).toUInt32 = some c ∧ c.type = .cnode) ∧
    ∃ v, cnodeLookup k.root (arg2 &&& 0xFF).toUInt32 = some v ∧ v.type = .vspace ∧
      ¬ IsConfigured (k.tcbAt cap.u.tcbPtr) v.u.rootPt (arg3 &&& 0xFF).toUInt32
        ((arg3 >>> 8) &&& 0xFF).toUInt32

def BindEffect (k : Kernel) (cap : Cap) (arg1 arg2 arg3 : UInt64) : Prop :=
  capIsValid cap = true ∧
    BindAllowed k.sched ((arg1 >>> 8) &&& 0xFF).toUInt32 ((arg1 >>> 24) &&& 0xFF).toUInt32
      arg2 arg3 ∧
    ¬ IsBound (k.sched.contexts ((arg1 >>> 8) &&& 0xFF).toUInt32.toNat)
      ((arg1 >>> 16) &&& 0xFF).toUInt32 ((arg1 >>> 24) &&& 0xFF).toUInt32 arg2 arg3
      ((arg1 >>> 32) &&& 0xFF).toUInt8

/-- When an invocation changes the root CNode, the MDB, a TCB or the scheduler.
The three mapping operations change page tables only. -/
def InvokeEffect (k : Kernel) (cap : Cap) (op : InvokeOp) (arg1 arg2 arg3 : UInt64) : Prop :=
  match op with
  | .untypedRetype => RetypeAllowed k cap arg1 arg2 arg3
  | .cnodeCopy => ∃ sc, IsCnodeCap cap ∧ CopyAllowed k.cnodes .root (arg3 &&& 0xFF).toUInt32 .root
      (arg2 &&& 0xFF).toUInt32 cap.rights sc
  | .cnodeMint => ∃ sc, IsCnodeCap cap ∧ MintAllowed k.cnodes .root (arg3 &&& 0xFF).toUInt32 .root
      (arg2 &&& 0xFF).toUInt32 cap.rights sc
  | .cnodeMove => ∃ slot, IsCnodeCap cap ∧ MoveAllowed k.cnodes .root (arg3 &&& 0xFF).toUInt32 .root
      (arg2 &&& 0xFF).toUInt32 slot
  | .cnodeDelete => IsCnodeCap cap ∧ DeleteAllowed k.cnodes .root (arg2 &&& 0xFF).toUInt32
  | .tcbConfigure => ConfigureEffect k cap arg1 arg2 arg3
  | .tcbResume => IsTcbCap cap ∧ ((k.tcbAt cap.u.tcbPtr).state = .inactive ∨
      (k.tcbAt cap.u.tcbPtr).state = .blockedRecv ∨ (k.tcbAt cap.u.tcbPtr).state = .blockedReply)
  | .tcbSuspend => IsTcbCap cap ∧ (k.tcbAt cap.u.tcbPtr).state ≠ .inactive
  | .schedBind => BindEffect k cap arg1 arg2 arg3
  | .vspaceMap | .vspaceUnmap | .frameMap | .other => False

/-! ### Changes one by one -/

theorem Unchanged.refl (k : Kernel) : Unchanged k k := ⟨rfl, rfl, rfl, rfl, rfl, rfl⟩

/-- A slot whose valid flag flips shows in the root CNode. -/
theorem not_unchanged_of_slot {k k' : Kernel} (i : Nat)
    (h : (k'.root.slots i).isValid ≠ (k.root.slots i).isValid) : ¬ Unchanged k k' := by
  intro hu
  rw [hu.root] at h
  exact h rfl

theorem unchanged_setTcbAt_iff (k : Kernel) (ptr : UInt64) (t : Tcb) :
    Unchanged k (k.setTcbAt ptr t) ↔ t = k.tcbAt ptr := by
  constructor
  · intro hu
    cases hthread : k.threadAt ptr with
    | some i =>
      have htcbs := congrArg (fun tcbs => tcbs.threads i) hu.tcbs
      simpa [Kernel.setTcbAt, Kernel.tcbAt, hthread] using htcbs
    | none =>
      have hheap := congrFun hu.heapTcbs ptr
      simpa [Kernel.setTcbAt, Kernel.tcbAt, hthread] using hheap
  · rintro rfl
    cases hthread : k.threadAt ptr with
    | some i =>
      simp only [Kernel.setTcbAt, Kernel.tcbAt, hthread, TcbTable.set, Function.update_eq_self]
      exact Unchanged.refl k
    | none =>
      simp only [Kernel.setTcbAt, Kernel.tcbAt, hthread, Function.update_eq_self]
      exact Unchanged.refl k

theorem tcbConfigure_eq_iff (t : Tcb) (vspaceRoot : UInt64) (asid partition : UInt32) :
    tcbConfigure t .root vspaceRoot asid partition = t ↔
      IsConfigured t vspaceRoot asid partition := by
  constructor
  · intro h
    rw [← h]
    exact ⟨rfl, rfl, rfl, rfl, rfl⟩
  · rintro ⟨hc, hv, ha, hp, hs⟩
    cases t
    simp_all [tcbConfigure]

theorem tcbSuspend_eq_iff (t : Tcb) : tcbSuspend t = t ↔ t.state = .inactive := by
  constructor
  · intro h
    rw [← h]
    rfl
  · intro h
    cases t
    simp_all [tcbSuspend]

theorem schedContext_bind_eq_iff (c : SchedContext) (tcbId partId : UInt32)
    (budget period : UInt64) (prio : UInt8) :
    c.bind tcbId partId budget period prio = c ↔ IsBound c tcbId partId budget period prio := by
  constructor
  · intro h
    rw [← h]
    exact ⟨rfl, rfl, rfl, rfl, rfl, rfl, rfl, rfl⟩
  · rintro ⟨hb, ht, hp, hbu, hpe, hpr, hr, hd⟩
    cases c
    simp_all [SchedContext.bind]

/-! ### Invocations -/

section
variable (k : Kernel) (cap : Cap) (arg1 arg2 arg3 : UInt64)

/-- An operation that either fails and changes nothing, or passes its guard and
changes something. -/
theorem unchanged_iff_of_cases {k : Kernel} {r : KError × Kernel} {guard : Prop}
    (h : (guard ∧ ¬ Unchanged k r.2) ∨ (¬ guard ∧ r.2 = k)) : Unchanged k r.2 ↔ ¬ guard := by
  rcases h with ⟨hguard, hchanged⟩ | ⟨hnot, heq⟩
  · exact ⟨fun hu => absurd hu hchanged, fun hn => absurd hguard hn⟩
  · rw [heq]
    exact ⟨fun _ => hnot, fun _ => Unchanged.refl k⟩

theorem not_unchanged_addSlot {k k' : Kernel} {i : Nat} {c : Cap}
    (hroot : k'.root = k.root.addSlot i c) (hfree : (k.root.slots i).isValid = 0)
    (hc : c.isValid ≠ 0) : ¬ Unchanged k k' := by
  refine not_unchanged_of_slot i ?_
  rw [hroot, hfree]
  show ((k.root.setSlot i c).slots i).isValid ≠ 0
  rw [CNode.setSlot_self]
  exact hc

theorem retype_unchanged_iff :
    Unchanged k (handleInvoke k cap .untypedRetype arg1 arg2 arg3).2 ↔
      ¬ RetypeAllowed k cap arg1 arg2 arg3 := by
  refine unchanged_iff_of_cases ?_
  obtain ⟨hallowed, heq⟩ | ⟨hnot, e, -, heq⟩ := handleInvoke_retype_cases k cap arg1 arg2 arg3
  · refine Or.inl ⟨hallowed, ?_⟩
    rw [heq]
    refine not_unchanged_addSlot (k.retype_root cap arg1 arg2 arg3) hallowed.2.2 ?_
    rw [capRetype_isValid hallowed.2.1]
    decide
  · exact Or.inr ⟨hnot, by rw [heq]⟩

theorem copy_unchanged_iff :
    Unchanged k (handleInvoke k cap .cnodeCopy arg1 arg2 arg3).2 ↔
      ¬ InvokeEffect k cap .cnodeCopy arg1 arg2 arg3 := by
  refine unchanged_iff_of_cases ?_
  obtain ⟨sc, hcap, hallowed, heq⟩ | ⟨hnot, e, -, heq⟩ :=
    handleInvoke_copy_cases k cap arg1 arg2 arg3
  · refine Or.inl ⟨⟨sc, hcap, hallowed⟩, ?_⟩
    obtain ⟨-, -, -, -, hv, -⟩ := cnodeLookup_some hallowed.2.1
    rw [heq]
    exact not_unchanged_addSlot (k.setRoot_root _) hallowed.2.2.2 hv
  · exact Or.inr ⟨fun ⟨sc, h⟩ => hnot sc h, by rw [heq]⟩

theorem mint_unchanged_iff :
    Unchanged k (handleInvoke k cap .cnodeMint arg1 arg2 arg3).2 ↔
      ¬ InvokeEffect k cap .cnodeMint arg1 arg2 arg3 := by
  refine unchanged_iff_of_cases ?_
  obtain ⟨sc, hcap, hallowed, heq⟩ | ⟨hnot, e, -, heq⟩ :=
    handleInvoke_mint_cases k cap arg1 arg2 arg3
  · refine Or.inl ⟨⟨sc, hcap, hallowed⟩, ?_⟩
    obtain ⟨-, -, -, -, hv, -⟩ := cnodeLookup_some hallowed.1.2.1
    rw [heq]
    exact not_unchanged_addSlot (k.setRoot_root _) hallowed.1.2.2.2 hv
  · exact Or.inr ⟨fun ⟨sc, h⟩ => hnot sc h, by rw [heq]⟩

theorem move_unchanged_iff :
    Unchanged k (handleInvoke k cap .cnodeMove arg1 arg2 arg3).2 ↔
      ¬ InvokeEffect k cap .cnodeMove arg1 arg2 arg3 := by
  refine unchanged_iff_of_cases ?_
  obtain ⟨slot, hcap, hallowed, heq⟩ | ⟨hnot, e, -, heq⟩ :=
    handleInvoke_move_cases k cap arg1 arg2 arg3
  · refine Or.inl ⟨⟨slot, hcap, hallowed⟩, ?_⟩
    obtain ⟨-, hv, -⟩ := cnodeLookupSlot_some hallowed.1
    rw [heq]
    -- the source slot was valid and is cleared
    refine not_unchanged_of_slot slot ?_
    rw [Kernel.setRoot_root, CNode.setSlot_self]
    exact fun h => hv h.symm
  · exact Or.inr ⟨fun ⟨slot, h⟩ => hnot slot h, by rw [heq]⟩

theorem delete_unchanged_iff :
    Unchanged k (handleInvoke k cap .cnodeDelete arg1 arg2 arg3).2 ↔
      ¬ InvokeEffect k cap .cnodeDelete arg1 arg2 arg3 := by
  refine unchanged_iff_of_cases ?_
  obtain ⟨hallowed, heq⟩ | ⟨hnot, e, -, heq⟩ := handleInvoke_delete_cases k cap arg1 arg2 arg3
  · refine Or.inl ⟨hallowed, ?_⟩
    rw [heq]
    refine not_unchanged_of_slot (arg2 &&& 0xFF).toUInt32.toNat ?_
    rw [Kernel.setRoot_root]
    show ((k.root.setSlot _ Cap.zero).slots _).isValid ≠ _
    rw [CNode.setSlot_self]
    exact fun h => hallowed.2.2 h.symm
  · exact Or.inr ⟨hnot, by rw [heq]⟩

/-- Without a thread to designate the three TCB invocations change nothing. -/
theorem handleInvoke_not_tcb {cap : Cap} (h : ¬ IsTcbCap cap) (k : Kernel) {op : InvokeOp}
    (hop : op = .tcbConfigure ∨ op = .tcbResume ∨ op = .tcbSuspend) (arg1 arg2 arg3 : UInt64) :
    (handleInvoke k cap op arg1 arg2 arg3).2 = k := by
  by_cases hvalid : capIsValid cap = true
  swap
  · rw [handleInvoke_of_invalid hvalid]
  by_cases htype : cap.type = .tcb
  swap
  · rcases hop with rfl | rfl | rfl <;>
      simp [handleInvoke, hvalid, htype, invokeTcbConfigure, invokeTcbResume, invokeTcbSuspend]
  have hptr : cap.u.tcbPtr = 0 := by
    by_contra hne
    exact h ⟨hvalid, htype, hne⟩
  rcases hop with rfl | rfl | rfl
  · simp only [handleInvoke, hvalid, not_true_eq_false, if_false, invokeTcbConfigure, hptr, if_true]
    repeat' split
    all_goals rfl
  · simp [handleInvoke, hvalid, htype, invokeTcbResume, hptr]
  · simp [handleInvoke, hvalid, htype, invokeTcbSuspend, hptr]

/-- What `INV_TCB_RESUME` makes of a thread. -/
def resumed (t : Tcb) : Tcb := if t.state = .inactive then tcbResume t else (tcbWakeFromIpc t).2

theorem resumed_eq_iff (t : Tcb) :
    resumed t = t ↔ ¬ (t.state = .inactive ∨ t.state = .blockedRecv ∨ t.state = .blockedReply) := by
  have hne : ∀ t' : Tcb, t'.state = .runnable → t.state ≠ .runnable → t' ≠ t := by
    intro t' hrun hnot heq
    rw [heq] at hrun
    exact hnot hrun
  cases hstate : t.state with
  | inactive =>
    simp only [resumed, hstate, if_true, tcbResume, true_or, not_true_eq_false, iff_false]
    exact hne _ rfl (by rw [hstate]; decide)
  | runnable => simp [resumed, hstate, tcbWakeFromIpc]
  | blockedSend => simp [resumed, hstate, tcbWakeFromIpc]
  | blockedRecv =>
    simp only [resumed, tcbWakeFromIpc, hstate]
    simpa using hne _ rfl (by rw [hstate]; decide)
  | blockedReply =>
    simp only [resumed, tcbWakeFromIpc, hstate]
    simpa using hne _ rfl (by rw [hstate]; decide)

theorem handleInvoke_suspend {cap : Cap} (hcap : IsTcbCap cap) (k : Kernel)
    (arg1 arg2 arg3 : UInt64) :
    (handleInvoke k cap .tcbSuspend arg1 arg2 arg3).2 =
      k.setTcbAt cap.u.tcbPtr (tcbSuspend (k.tcbAt cap.u.tcbPtr)) := by
  simp [handleInvoke, invokeTcbSuspend, hcap.1, hcap.2.1, hcap.2.2]

theorem handleInvoke_resume {cap : Cap} (hcap : IsTcbCap cap) (k : Kernel)
    (arg1 arg2 arg3 : UInt64) :
    (handleInvoke k cap .tcbResume arg1 arg2 arg3).2 =
      k.setTcbAt cap.u.tcbPtr (resumed (k.tcbAt cap.u.tcbPtr)) := by
  simp only [handleInvoke, invokeTcbResume, hcap.1, hcap.2.1, hcap.2.2, resumed]
  split_ifs <;> simp_all

theorem suspend_unchanged_iff :
    Unchanged k (handleInvoke k cap .tcbSuspend arg1 arg2 arg3).2 ↔
      ¬ InvokeEffect k cap .tcbSuspend arg1 arg2 arg3 := by
  by_cases hcap : IsTcbCap cap
  · rw [handleInvoke_suspend hcap, unchanged_setTcbAt_iff, tcbSuspend_eq_iff]
    simp only [InvokeEffect, hcap, true_and, not_not]
  · rw [handleInvoke_not_tcb hcap k (Or.inr (Or.inr rfl))]
    exact ⟨fun _ he => hcap he.1, fun _ => Unchanged.refl k⟩

theorem resume_unchanged_iff :
    Unchanged k (handleInvoke k cap .tcbResume arg1 arg2 arg3).2 ↔
      ¬ InvokeEffect k cap .tcbResume arg1 arg2 arg3 := by
  by_cases hcap : IsTcbCap cap
  · rw [handleInvoke_resume hcap, unchanged_setTcbAt_iff, resumed_eq_iff]
    simp only [InvokeEffect, hcap, true_and]
  · rw [handleInvoke_not_tcb hcap k (Or.inr (Or.inl rfl))]
    exact ⟨fun _ he => hcap he.1, fun _ => Unchanged.refl k⟩

/-- The guard of `INV_TCB_CONFIGURE`, with the address space it finds. -/
def ConfigureAllowed (k : Kernel) (cap : Cap) (arg1 arg2 : UInt64) (v : Cap) : Prop :=
  IsTcbCap cap ∧
    (∃ c, cnodeLookup k.root ((arg1 >>> 16) &&& 0xFF).toUInt32 = some c ∧ c.type = .cnode) ∧
    cnodeLookup k.root (arg2 &&& 0xFF).toUInt32 = some v ∧ v.type = .vspace

theorem handleInvoke_configure_cases (k : Kernel) (cap : Cap) (arg1 arg2 arg3 : UInt64) :
    (∃ v, ConfigureAllowed k cap arg1 arg2 v ∧
      (handleInvoke k cap .tcbConfigure arg1 arg2 arg3).2 = k.setTcbAt cap.u.tcbPtr
        (tcbConfigure (k.tcbAt cap.u.tcbPtr) .root v.u.rootPt (arg3 &&& 0xFF).toUInt32
          ((arg3 >>> 8) &&& 0xFF).toUInt32)) ∨
    ((∀ v, ¬ ConfigureAllowed k cap arg1 arg2 v) ∧
      (handleInvoke k cap .tcbConfigure arg1 arg2 arg3).2 = k) := by
  by_cases hcap : IsTcbCap cap
  swap
  · exact Or.inr ⟨fun v h => hcap h.1, handleInvoke_not_tcb hcap k (Or.inl rfl) arg1 arg2 arg3⟩
  simp only [handleInvoke, invokeTcbConfigure, hcap.1, hcap.2.1, hcap.2.2, ConfigureAllowed,
    not_true_eq_false, if_false, ne_eq]
  cases hc : cnodeLookup k.root ((arg1 >>> 16) &&& 0xFF).toUInt32 with
  | none => exact Or.inr ⟨fun v h => by simp at h, rfl⟩
  | some c =>
    simp only
    by_cases hct : c.type = .cnode
    swap
    · rw [if_pos hct]
      exact Or.inr ⟨fun v h => hct (by simpa using h.2.1), rfl⟩
    rw [if_neg (not_not.mpr hct)]
    cases hv : cnodeLookup k.root (arg2 &&& 0xFF).toUInt32 with
    | none => exact Or.inr ⟨fun v h => by simp at h, rfl⟩
    | some v =>
      simp only
      by_cases hvt : v.type = .vspace
      swap
      · rw [if_pos hvt]
        refine Or.inr ⟨fun w h => ?_, rfl⟩
        obtain rfl := Option.some.inj h.2.2.1
        exact hvt h.2.2.2
      · rw [if_neg (not_not.mpr hvt)]
        exact Or.inl ⟨v, ⟨hcap, ⟨c, rfl, hct⟩, rfl, hvt⟩, rfl⟩

theorem configure_unchanged_iff :
    Unchanged k (handleInvoke k cap .tcbConfigure arg1 arg2 arg3).2 ↔
      ¬ ConfigureEffect k cap arg1 arg2 arg3 := by
  obtain ⟨v, ⟨hcap, hcnode, hv, hvt⟩, heq⟩ | ⟨hnot, heq⟩ :=
    handleInvoke_configure_cases k cap arg1 arg2 arg3
  · rw [heq, unchanged_setTcbAt_iff, tcbConfigure_eq_iff]
    constructor
    · rintro hdone ⟨-, -, w, hw, -, hchange⟩
      obtain rfl := Option.some.inj (hv.symm.trans hw)
      exact hchange hdone
    · intro hnone
      by_contra hchange
      exact hnone ⟨hcap, hcnode, v, hv, hvt, hchange⟩
  · rw [heq]
    refine ⟨fun _ he => ?_, fun _ => Unchanged.refl k⟩
    obtain ⟨hcap, hcnode, v, hv, hvt, -⟩ := he
    exact hnot v ⟨hcap, hcnode, hv, hvt⟩

/-! `INV_SCHED_BIND` decodes four of its arguments from the bytes of the first one. -/

def bindScId (arg1 : UInt64) : UInt32 := ((arg1 >>> 8) &&& 0xFF).toUInt32

def bindTcbId (arg1 : UInt64) : UInt32 := ((arg1 >>> 16) &&& 0xFF).toUInt32

def bindPartId (arg1 : UInt64) : UInt32 := ((arg1 >>> 24) &&& 0xFF).toUInt32

def bindPrio (arg1 : UInt64) : UInt8 := ((arg1 >>> 32) &&& 0xFF).toUInt8

/-- The guard of `INV_SCHED_BIND`. -/
def BindAccepted (k : Kernel) (cap : Cap) (arg1 arg2 arg3 : UInt64) : Prop :=
  capIsValid cap = true ∧ BindAllowed k.sched (bindScId arg1) (bindPartId arg1) arg2 arg3

/-- The scheduler after an accepted `INV_SCHED_BIND`. -/
def SchedState.rebind (s : SchedState) (arg1 arg2 arg3 : UInt64) : SchedState :=
  s.setContext (bindScId arg1).toNat ((s.contexts (bindScId arg1).toNat).bind (bindTcbId arg1)
    (bindPartId arg1) arg2 arg3 (bindPrio arg1))

theorem handleInvoke_bind_cases (k : Kernel) (cap : Cap) (arg1 arg2 arg3 : UInt64) :
    (BindAccepted k cap arg1 arg2 arg3 ∧
      (handleInvoke k cap .schedBind arg1 arg2 arg3).2 =
        { k with sched := k.sched.rebind arg1 arg2 arg3 }) ∨
    (¬ BindAccepted k cap arg1 arg2 arg3 ∧
      (handleInvoke k cap .schedBind arg1 arg2 arg3).2 = k) := by
  by_cases hvalid : capIsValid cap = true
  swap
  · rw [handleInvoke_of_invalid hvalid]
    exact Or.inr ⟨fun h => hvalid h.1, rfl⟩
  simp only [handleInvoke, hvalid, not_true_eq_false, if_false, invokeSchedBind]
  obtain ⟨hallowed, heq⟩ | ⟨hnot, heq⟩ := schedContextBind_cases k.sched
    ((arg1 >>> 8) &&& 0xFF).toUInt32 ((arg1 >>> 16) &&& 0xFF).toUInt32
    ((arg1 >>> 24) &&& 0xFF).toUInt32 arg2 arg3 ((arg1 >>> 32) &&& 0xFF).toUInt8
  · rw [heq]
    exact Or.inl ⟨⟨hvalid, hallowed⟩, rfl⟩
  · rw [heq]
    exact Or.inr ⟨fun h => hnot h.2, rfl⟩

theorem schedBind_unchanged_iff :
    Unchanged k (handleInvoke k cap .schedBind arg1 arg2 arg3).2 ↔
      ¬ BindEffect k cap arg1 arg2 arg3 := by
  obtain ⟨⟨hvalid, hallowed⟩, heq⟩ | ⟨hnot, heq⟩ := handleInvoke_bind_cases k cap arg1 arg2 arg3
  · have heffect : BindEffect k cap arg1 arg2 arg3 ↔
        ¬ IsBound (k.sched.contexts (bindScId arg1).toNat) (bindTcbId arg1) (bindPartId arg1) arg2
          arg3 (bindPrio arg1) :=
      ⟨fun h => h.2.2, fun h => ⟨hvalid, hallowed, h⟩⟩
    rw [heq, heffect, not_not, ← schedContext_bind_eq_iff]
    constructor
    · intro hu
      have hctx := congrArg (fun sched => sched.contexts (bindScId arg1).toNat) hu.sched
      simpa [SchedState.rebind] using hctx
    · intro hsame
      refine ⟨rfl, rfl, rfl, rfl, rfl, ?_⟩
      simp only [SchedState.rebind, SchedState.setContext, hsame, Function.update_eq_self]
  · rw [heq]
    exact ⟨fun _ he => hnot ⟨he.1, he.2.1⟩, fun _ => Unchanged.refl k⟩

/-- Mapping and unmapping touch page tables only. -/
theorem vspace_unchanged {op : InvokeOp}
    (hop : op = .vspaceMap ∨ op = .vspaceUnmap ∨ op = .frameMap ∨ op = .other) :
    Unchanged k (handleInvoke k cap op arg1 arg2 arg3).2 := by
  by_cases hvalid : capIsValid cap = true
  swap
  · rw [handleInvoke_of_invalid hvalid]
    exact Unchanged.refl k
  rcases hop with rfl | rfl | rfl | rfl <;>
    simp only [handleInvoke, hvalid, not_true_eq_false, if_false, invokeVspaceMap,
      invokeVspaceUnmap] <;>
    repeat' split
  all_goals exact ⟨rfl, rfl, rfl, rfl, rfl, rfl⟩

/-- Exactly when an invocation leaves everything but page tables alone. -/
theorem handleInvoke_unchanged_iff (op : InvokeOp) :
    Unchanged k (handleInvoke k cap op arg1 arg2 arg3).2 ↔
      ¬ InvokeEffect k cap op arg1 arg2 arg3 := by
  have hmapping : ∀ {op : InvokeOp},
      (op = .vspaceMap ∨ op = .vspaceUnmap ∨ op = .frameMap ∨ op = .other) →
      (Unchanged k (handleInvoke k cap op arg1 arg2 arg3).2 ↔ ¬ False) :=
    fun hop => ⟨fun _ h => h, fun _ => vspace_unchanged k cap arg1 arg2 arg3 hop⟩
  cases op with
  | untypedRetype => exact retype_unchanged_iff ..
  | cnodeCopy => exact copy_unchanged_iff ..
  | cnodeMint => exact mint_unchanged_iff ..
  | cnodeMove => exact move_unchanged_iff ..
  | cnodeDelete => exact delete_unchanged_iff ..
  | tcbConfigure => exact configure_unchanged_iff ..
  | tcbResume => exact resume_unchanged_iff ..
  | tcbSuspend => exact suspend_unchanged_iff ..
  | schedBind => exact schedBind_unchanged_iff ..
  | vspaceMap => exact hmapping (Or.inl rfl)
  | vspaceUnmap => exact hmapping (Or.inr (Or.inl rfl))
  | frameMap => exact hmapping (Or.inr (Or.inr (Or.inl rfl)))
  | other => exact hmapping (Or.inr (Or.inr (Or.inr rfl)))

end
/-! ### Threads without capabilities -/

/-- The thread's CSpace is null, or a CNode other than the root without a valid
capability. -/
def NoCapabilities (k : Kernel) (t : Tcb) : Prop :=
  t.cspace = none ∨ ∃ n, t.cspace = some (.other n) ∧
    ∀ i, i < 256 → capIsValid ((k.cnodes (.other n)).slots i) = false

/-- The syscall reaches `handle_invoke` with a capability of the root CNode, and
the invocation has an effect. -/
def FallbackEffect (k : Kernel) (f : TrapFrame) (cur : UInt32) : Prop :=
  Syscall.ofWord f.a7 = some .invoke ∧ f.a0.toUInt32 = 0 ∧
    tcbIsRunnable (k.tcbs.threads cur.toNat) = true ∧
    cspaceLookup k (k.tcbs.threads cur.toNat) 0 = none ∧
    (k.sched.contexts (k.tcbs.threads cur.toNat).schedContext.toNat).remainingUs ≠ 0 ∧
    ∃ cap, cnodeLookup k.root f.a1.toUInt32 = some cap ∧
      InvokeEffect k cap (InvokeOp.ofWord (f.a1 &&& 0xFF)) f.a1 f.a2 f.a3

/-- All a lookup can return to such a thread is a capability of type null. -/
theorem NoCapabilities.lookup {k : Kernel} {t : Tcb} (h : NoCapabilities k t) {idx : UInt32}
    {cap : Cap} (hl : cspaceLookup k t idx = some cap) :
    capIsValid cap = false ∧ cap.type = .null := by
  unfold cspaceLookup at hl
  rcases h with hnone | ⟨n, hsome, hempty⟩
  · rw [hnone] at hl
    cases hl
  · rw [hsome] at hl
    obtain ⟨s, -, rfl, hlt, hv, ht⟩ := cnodeLookup_some hl
    refine ⟨hempty s hlt, ?_⟩
    by_contra htype
    have hinvalid := hempty s hlt
    simp [capIsValid, hv, ht, htype] at hinvalid

theorem dispatch_null (k : Kernel) (f : TrapFrame) (cur : UInt32) (sys : Syscall) {cap : Cap}
    (hvalid : capIsValid cap = false) (htype : cap.type = .null) :
    (∃ e, dispatch k f cur sys (some cap) = .ret e) ∨
      ∃ e, dispatch k f cur sys (some cap) = .done e k := by
  have hne : cap.type ≠ .endpoint := by
    rw [htype]
    decide
  cases sys with
  | call =>
    left
    simp only [dispatch, sysCall]
    split_ifs
    · exact ⟨_, rfl⟩
    · exact ⟨_, rfl⟩
  | replyRecv => exact Or.inl ⟨.invalidCap, by simp [dispatch, sysReplyRecv, hne]⟩
  | send => exact Or.inl ⟨.invalidCap, by simp [dispatch, sysSend, hne]⟩
  | yield => exact Or.inr ⟨.ok, rfl⟩
  | «seal» => exact Or.inr ⟨.invalidArg, rfl⟩
  | invoke =>
    refine Or.inr ⟨.invalidCap, ?_⟩
    simp only [dispatch, sysInvoke]
    rw [handleInvoke_of_invalid (by simp [hvalid])]

/-- The capability an effective fallback takes is the one the dispatcher finds. -/
theorem FallbackEffect.admitted {k : Kernel} {f : TrapFrame} {cur : UInt32}
    (h : FallbackEffect k f cur) : Admitted k f cur .invoke := by
  obtain ⟨hsys, hzero, hrun, hown, hbudget, cap, hroot, -⟩ := h
  refine ⟨hsys, Or.inl hrun, Or.inr ?_, hbudget⟩
  simp [invokedCap, hzero, hown, hroot]

/-- An admitted syscall of a thread without capabilities comes with none, with a
null one, or with one of the root CNode. -/
theorem invokedCap_cases {k : Kernel} {f : TrapFrame} {cur : UInt32} {sys : Syscall}
    (h : NoCapabilities k (k.tcbs.threads cur.toNat)) (ha : Admitted k f cur sys) :
    (∃ cap, cspaceLookup k (k.tcbs.threads cur.toNat) f.a0.toUInt32 = some cap ∧
      invokedCap k (k.tcbs.threads cur.toNat) sys f = some cap ∧ capIsValid cap = false ∧
      cap.type = .null) ∨
    (sys = .yield) ∨
    (sys = .invoke ∧ f.a0.toUInt32 = 0 ∧ cspaceLookup k (k.tcbs.threads cur.toNat) 0 = none ∧
      ∃ cap, invokedCap k (k.tcbs.threads cur.toNat) sys f = some cap ∧
        cnodeLookup k.root f.a1.toUInt32 = some cap) := by
  cases hown : cspaceLookup k (k.tcbs.threads cur.toNat) f.a0.toUInt32 with
  | some cap =>
    obtain ⟨hvalid, htype⟩ := h.lookup hown
    exact Or.inl ⟨cap, rfl, by simp [invokedCap, hown], hvalid, htype⟩
  | none =>
    rcases ha.cap with hyield | hcap
    · exact Or.inr (Or.inl hyield)
    obtain ⟨cap, hcap⟩ := Option.ne_none_iff_exists'.mp hcap
    have hfall : sys = .invoke ∧ f.a0.toUInt32 = 0 := by
      by_contra hnot
      simp [invokedCap, hown, hnot] at hcap
    refine Or.inr (Or.inr ⟨hfall.1, hfall.2, by rw [← hfall.2]; exact hown, cap, hcap, ?_⟩)
    rw [invokedCap, hown] at hcap
    simpa [hfall] using hcap

/-- A syscall of a thread without capabilities always returns, and it leaves the
root CNode, the MDB, the endpoints, the TCBs and the scheduler unchanged if and
only if it is not a fallback invocation with an effect. -/
theorem syscall_without_capabilities_iff {k : Kernel} {cur : UInt32}
    (h : NoCapabilities k (k.tcbs.threads cur.toNat)) (f : TrapFrame) (entry now : UInt64) :
    ∃ e f' k', syscallHandler k f cur entry now = some (e, f', k') ∧
      (Unchanged k k' ↔ ¬ FallbackEffect k f cur) := by
  have hsame : ∀ {r : Option (KError × TrapFrame × Kernel)} {e : KError} {f' : TrapFrame},
      r = some (e, f', k) → ¬ FallbackEffect k f cur →
      ∃ e f' k', r = some (e, f', k') ∧ (Unchanged k k' ↔ ¬ FallbackEffect k f cur) :=
    fun heq hno => ⟨_, _, _, heq, fun _ => hno, fun _ => Unchanged.refl k⟩
  obtain ⟨sys, hadm, heq⟩ | ⟨hnot, e, -, heq⟩ := syscallHandler_cases k f cur entry now
  swap
  · exact hsame heq fun he => hnot _ he.admitted
  rw [heq]
  have hsys : FallbackEffect k f cur → sys = .invoke :=
    fun he => Option.some.inj (hadm.number.symm.trans he.1)
  obtain ⟨cap, hown, hcap, hvalid, htype⟩ | rfl | ⟨rfl, hzero, hown, cap, hcap, hroot⟩ :=
    invokedCap_cases h hadm
  · have hno : ¬ FallbackEffect k f cur := by
      rintro ⟨-, hzero, -, hlook, -⟩
      rw [hzero, hlook] at hown
      cases hown
    rw [hcap]
    obtain ⟨e, hret⟩ | ⟨e, hdone⟩ := dispatch_null k f cur sys hvalid htype
    · rw [hret]
      exact hsame rfl hno
    · rw [hdone]
      obtain ⟨e', f', hfin⟩ := finish_done k k f entry now e
      exact hsame hfin hno
  · obtain ⟨e', f', hfin⟩ := finish_done k k f entry now .ok
    exact hsame hfin fun he => by cases hsys he
  · -- the fallback: the effect is that of the invocation
    rw [hcap]
    obtain ⟨e', f', hfin⟩ := finish_done k
      (handleInvoke k cap (InvokeOp.ofWord (f.a1 &&& 0xFF)) f.a1 f.a2 f.a3).2 f entry now
      (handleInvoke k cap (InvokeOp.ofWord (f.a1 &&& 0xFF)) f.a1 f.a2 f.a3).1
    refine ⟨e', f', _, hfin, ?_⟩
    rw [handleInvoke_unchanged_iff, not_iff_not]
    constructor
    · intro heffect
      have hrun : tcbIsRunnable (k.tcbs.threads cur.toNat) = true :=
        hadm.runnable.resolve_right (by decide)
      exact ⟨hadm.number, hzero, hrun, hown, hadm.budget, cap, hroot, heffect⟩
    · rintro ⟨-, -, -, -, -, cap', hroot', heffect⟩
      rw [hroot] at hroot'
      cases hroot'
      exact heffect

/-- `SYS_INVOKE` with capability pointer zero: a retype of the root Untyped into a
Frame of one page, in slot 6. -/
def fallbackRetype : TrapFrame := { a0 := 0, a1 := 0x600, a2 := 5, a3 := 4096, a7 := 5 }

theorem hello_noCapabilities :
    NoCapabilities (bootKernel plainBoot) ((bootKernel plainBoot).tcbs.threads 0) := by
  have hnull : ((bootKernel plainBoot).tcbs.threads 0).cspace = none := by decide +kernel
  exact Or.inl hnull

theorem syscall_without_capabilities_hello :
    NoCapabilities (bootKernel plainBoot) ((bootKernel plainBoot).tcbs.threads 0) ∧
    ∃ e f' k', syscallHandler (bootKernel plainBoot) fallbackRetype 0 0 0 = some (e, f', k') ∧
      (Unchanged (bootKernel plainBoot) k' ↔
        ¬ FallbackEffect (bootKernel plainBoot) fallbackRetype 0) := by
  have hno : NoCapabilities (bootKernel plainBoot)
      ((bootKernel plainBoot).tcbs.threads (0 : UInt32).toNat) := hello_noCapabilities
  exact ⟨hello_noCapabilities, syscall_without_capabilities_iff hno fallbackRetype 0 0⟩

/-- The same with a `SCHED_BIND` of context 20, on the endpoint capability in
slot 11. -/
def fallbackBind : TrapFrame := { a0 := 0, a1 := 0x140B, a2 := 500, a3 := 2000, a7 := 5 }

/-- The first thread boot creates has no CSpace.  One syscall of it puts a Frame
of the root Untyped's memory into slot 6 of the root CNode, another one binds a
scheduling context. -/
theorem syscall_fallback_changes_kernel :
    NoCapabilities (bootKernel plainBoot) ((bootKernel plainBoot).tcbs.threads 0) ∧
    (∃ f' k', syscallHandler (bootKernel plainBoot) fallbackRetype 0 0 0 = some (.ok, f', k') ∧
      ¬ Unchanged (bootKernel plainBoot) k') ∧
    ∃ f' k', syscallHandler (bootKernel plainBoot) fallbackBind 0 0 0 = some (.ok, f', k') ∧
      ¬ Unchanged (bootKernel plainBoot) k' := by
  have hretype : (syscallHandler (bootKernel plainBoot) fallbackRetype 0 0 0).map
      (fun r => (r.1, (r.2.2.root.slots 6).isValid)) = some (.ok, 1) := by decide +kernel
  have hslot : ((bootKernel plainBoot).root.slots 6).isValid = 0 := by decide +kernel
  have hbind : (syscallHandler (bootKernel plainBoot) fallbackBind 0 0 0).map
      (fun r => (r.1, (r.2.2.sched.contexts 20).bound)) = some (.ok, true) := by decide +kernel
  have hcontext : ((bootKernel plainBoot).sched.contexts 20).bound = false := by decide +kernel
  refine ⟨hello_noCapabilities, ?_, ?_⟩
  · obtain ⟨⟨e, f', k'⟩, heq, hres⟩ := Option.map_eq_some_iff.mp hretype
    obtain ⟨rfl, hafter⟩ := Prod.mk.inj hres
    refine ⟨f', k', heq, not_unchanged_of_slot 6 ?_⟩
    rw [hslot, hafter]
    decide
  · obtain ⟨⟨e, f', k'⟩, heq, hres⟩ := Option.map_eq_some_iff.mp hbind
    obtain ⟨rfl, hafter⟩ := Prod.mk.inj hres
    refine ⟨f', k', heq, fun hsame => ?_⟩
    rw [hsame.sched, hcontext] at hafter
    cases hafter

end Moonlight
