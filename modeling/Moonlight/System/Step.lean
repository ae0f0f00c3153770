/-
The kernel as one system.

A run mixes the traps of any threads with timer ticks and with the creation and the
destruction of processes.  `Invoked` lists everything one invocation can do, and
`SystemStep.cases` everything one step can; the modules above it ask what holds in every
state of a run.
-/
import Moonlight.Process.Calls
import Moonlight.Sched.Tick
import Moonlight.Syscall.Transitions

namespace Moonlight

inductive SystemEvent where
  | trap (t : Trap)
  | tick (now : UInt64)
  | create (args : ProcessArgs)
  | destroy (tcbId : UInt32)

/-- The event leads from `k` to `k'`. -/
def SystemStep (env : BootEnv) (k : Kernel) : SystemEvent → Kernel → Prop
  | .trap t, k' => t.after k = some k'
  | .tick now, k' => k' = { k with sched := schedTick k.sched now }
  | .create args, k' => ProcessStep env k (.create args) k'
  | .destroy tcbId, k' => ProcessStep env k (.destroy tcbId) k'

/-! ### Invocations -/

/-- The thread that a TCB capability designates is resumed, suspended or configured. -/
inductive ThreadChange (u : Tcb) : Tcb → Prop
  | resume : ThreadChange u (resumed u)
  | suspend : ThreadChange u (tcbSuspend u)
  | configure (vspaceRoot : UInt64) (asid partition : UInt32) :
      ThreadChange u (tcbConfigure u .root vspaceRoot asid partition)

/-- The capability designates an address space. -/
def IsVspaceCap (cap : Cap) : Prop :=
  capIsValid cap = true ∧ cap.type = .vspace ∧ cap.u.rootPt ≠ 0

/-- The state after `INV_VSPACE_MAP` has called `vspace_map` for a frame. -/
def Kernel.mapFrame (k : Kernel) (cap frame : Cap) (vaddr : UInt64) : Kernel :=
  let r := vspaceMap k.mem (k.vspaces cap.u.rootPt) vaddr frame.u.framePaddr pageSize
    frame.u.framePerms frame.u.frameColor
  { k with mem := r.2.1, vspaces := Function.update k.vspaces cap.u.rootPt r.2.2 }

def Kernel.unmap (k : Kernel) (cap : Cap) (vaddr size : UInt64) : Kernel :=
  { k with mem := (vspaceUnmap k.mem (k.vspaces cap.u.rootPt) vaddr size).2 }

/-- Everything an invocation can do, with the checks behind it. -/
inductive Invoked (k : Kernel) (cap : Cap) (arg1 arg2 arg3 : UInt64) : Kernel → Prop
  | nothing : Invoked k cap arg1 arg2 arg3 k
  | retype (h : RetypeAllowed k cap arg1 arg2 arg3) :
      Invoked k cap arg1 arg2 arg3 (k.retype cap arg1 arg2 arg3)
  | copy {sc : Cap} (hcap : IsCnodeCap cap)
      (h : CopyAllowed k.cnodes .root (arg3 &&& 0xFF).toUInt32 .root (arg2 &&& 0xFF).toUInt32
        cap.rights sc) :
      Invoked k cap arg1 arg2 arg3
        (k.setRoot (k.root.addSlot (arg3 &&& 0xFF).toUInt32.toNat { sc with rights := cap.rights }))
  | mint {sc : Cap} (hcap : IsCnodeCap cap)
      (h : MintAllowed k.cnodes .root (arg3 &&& 0xFF).toUInt32 .root (arg2 &&& 0xFF).toUInt32
        cap.rights sc) :
      Invoked k cap arg1 arg2 arg3
        (k.setRoot (k.root.addSlot (arg3 &&& 0xFF).toUInt32.toNat
          { sc with rights := cap.rights, badge := ((arg2 >>> 8) &&& 0xFF).toUInt32 }))
  | move {slot : Nat} (hcap : IsCnodeCap cap)
      (h : MoveAllowed k.cnodes .root (arg3 &&& 0xFF).toUInt32 .root (arg2 &&& 0xFF).toUInt32
        slot) :
      Invoked k cap arg1 arg2 arg3
        (k.setRoot ((k.root.setSlot (arg3 &&& 0xFF).toUInt32.toNat (k.root.slots slot)).setSlot slot
          Cap.zero))
  | delete (hcap : IsCnodeCap cap)
      (h : DeleteAllowed k.cnodes .root (arg2 &&& 0xFF).toUInt32) :
      Invoked k cap arg1 arg2 arg3
        (k.setRoot (k.root.clearSlot (arg2 &&& 0xFF).toUInt32.toNat))
  | thread {u : Tcb} (hcap : IsTcbCap cap) (h : ThreadChange (k.tcbAt cap.u.tcbPtr) u) :
      Invoked k cap arg1 arg2 arg3 (k.setTcbAt cap.u.tcbPtr u)
  | bind (h : BindAccepted k cap arg1 arg2 arg3) :
      Invoked k cap arg1 arg2 arg3 { k with sched := k.sched.rebind arg1 arg2 arg3 }
  | map {frame : Cap} (hcap : IsVspaceCap cap)
      (hframe : cnodeLookup k.root (arg3 &&& 0xFF).toUInt32 = some frame)
      (htype : frame.type = .frame) : Invoked k cap arg1 arg2 arg3 (k.mapFrame cap frame arg2)
  | unmap (hcap : IsVspaceCap cap) : Invoked k cap arg1 arg2 arg3 (k.unmap cap arg2 arg3)

section
variable (k : Kernel) (cap : Cap) (arg1 arg2 arg3 : UInt64)

theorem invokeVspaceMap_invoked (hvalid : capIsValid cap = true) :
    Invoked k cap arg1 arg2 arg3 (invokeVspaceMap k cap arg2 arg3).2 := by
  unfold invokeVspaceMap
  by_cases htype : cap.type = .vspace
  swap
  · rw [if_pos htype]
    exact .nothing
  rw [if_neg (not_not.mpr htype)]
  cases hframe : cnodeLookup k.root (arg3 &&& 0xFF).toUInt32 with
  | none => exact .nothing
  | some frame =>
    simp only
    split_ifs with hft hroot
    · exact .nothing
    · exact .nothing
    · exact .map ⟨hvalid, htype, hroot⟩ hframe (not_not.mp hft)

theorem invokeVspaceUnmap_invoked (hvalid : capIsValid cap = true) :
    Invoked k cap arg1 arg2 arg3 (invokeVspaceUnmap k cap arg2 arg3).2 := by
  unfold invokeVspaceUnmap
  split_ifs with htype hroot
  · exact .nothing
  · exact .nothing
  · exact .unmap ⟨hvalid, not_not.mp htype, hroot⟩

theorem handleInvoke_invoked (op : InvokeOp) :
    Invoked k cap arg1 arg2 arg3 (handleInvoke k cap op arg1 arg2 arg3).2 := by
  by_cases hvalid : capIsValid cap = true
  swap
  · rw [handleInvoke_of_invalid hvalid]
    exact .nothing
  cases op with
  | untypedRetype =>
    obtain ⟨h, heq⟩ | ⟨-, e, -, heq⟩ := handleInvoke_retype_cases k cap arg1 arg2 arg3
    · rw [heq]
      exact .retype h
    · rw [heq]
      exact .nothing
  | cnodeCopy =>
    obtain ⟨sc, hcap, h, heq⟩ | ⟨-, e, -, heq⟩ := handleInvoke_copy_cases k cap arg1 arg2 arg3
    · rw [heq]
      exact .copy hcap h
    · rw [heq]
      exact .nothing
  | cnodeMint =>
    obtain ⟨sc, hcap, h, heq⟩ | ⟨-, e, -, heq⟩ := handleInvoke_mint_cases k cap arg1 arg2 arg3
    · rw [heq]
      exact .mint hcap h
    · rw [heq]
      exact .nothing
  | cnodeMove =>
    obtain ⟨slot, hcap, h, heq⟩ | ⟨-, e, -, heq⟩ := handleInvoke_move_cases k cap arg1 arg2 arg3
    · rw [heq]
      exact .move hcap h
    · rw [heq]
      exact .nothing
  | cnodeDelete =>
    obtain ⟨⟨hcap, h⟩, heq⟩ | ⟨-, e, -, heq⟩ := handleInvoke_delete_cases k cap arg1 arg2 arg3
    · rw [heq]
      exact .delete hcap h
    · rw [heq]
      exact .nothing
  | tcbConfigure =>
    obtain ⟨v, h, heq⟩ | ⟨-, heq⟩ := handleInvoke_configure_cases k cap arg1 arg2 arg3
    · rw [heq]
      exact .thread h.1 (.configure ..)
    · rw [heq]
      exact .nothing
  | tcbResume =>
    by_cases hcap : IsTcbCap cap
    · rw [handleInvoke_resume hcap]
      exact .thread hcap .resume
    · rw [handleInvoke_not_tcb hcap k (Or.inr (Or.inl rfl))]
      exact .nothing
  | tcbSuspend =>
    by_cases hcap : IsTcbCap cap
    · rw [handleInvoke_suspend hcap]
      exact .thread hcap .suspend
    · rw [handleInvoke_not_tcb hcap k (Or.inr (Or.inr rfl))]
      exact .nothing
  | schedBind =>
    obtain ⟨h, heq⟩ | ⟨-, heq⟩ := handleInvoke_bind_cases k cap arg1 arg2 arg3
    · rw [heq]
      exact .bind h
    · rw [heq]
      exact .nothing
  | vspaceMap | frameMap =>
    simp only [handleInvoke, hvalid, not_true_eq_false, if_false]
    exact invokeVspaceMap_invoked k cap arg1 arg2 arg3 hvalid
  | vspaceUnmap =>
    simp only [handleInvoke, hvalid, not_true_eq_false, if_false]
    exact invokeVspaceUnmap_invoked k cap arg1 arg2 arg3 hvalid
  | other =>
    simp only [handleInvoke, hvalid, not_true_eq_false, if_false]
    exact .nothing

end

/-! ### What IPC leaves alone -/

/-- CNodes, MDB, scheduler and memory are as they were. -/
structure TablesKept (k k' : Kernel) : Prop where
  cnodes : k'.cnodes = k.cnodes
  mdb : k'.mdb = k.mdb
  sched : k'.sched = k.sched
  vspaces : k'.vspaces = k.vspaces
  mem : k'.mem = k.mem

variable {env : BootEnv} {k k' : Kernel}

theorem TablesKept.refl (k : Kernel) : TablesKept k k := ⟨rfl, rfl, rfl, rfl, rfl⟩

theorem Stores.tablesKept {ep : UInt64} {sender : UInt32} {msg : IpcMsg}
    (h : Stores k ep sender msg k') : TablesKept k k' := by
  cases h with
  | rendezvous _ _ => exact ⟨rfl, rfl, rfl, rfl, rfl⟩
  | enqueue _ _ _ => exact ⟨rfl, rfl, rfl, rfl, rfl⟩

theorem IpcEffect.tablesKept {t : Trap} (h : IpcEffect k t k') : TablesKept k k' := by
  cases h with
  | send _ _ _ hstores => exact hstores.tablesKept
  | call _ _ hstores =>
    obtain ⟨hcnodes, hmdb, hsched, hvspaces, hmem⟩ := hstores.tablesKept
    exact ⟨hcnodes, hmdb, hsched, hvspaces, hmem⟩
  | take _ _ _ _ _ => exact ⟨rfl, rfl, rfl, rfl, rfl⟩
  | wait _ _ _ _ => exact ⟨rfl, rfl, rfl, rfl, rfl⟩

theorem setTcbAt_tablesKept (k : Kernel) (ptr : UInt64) (t : Tcb) :
    TablesKept k (k.setTcbAt ptr t) := by
  unfold Kernel.setTcbAt
  split
  · exact ⟨rfl, rfl, rfl, rfl, rfl⟩
  · exact ⟨rfl, rfl, rfl, rfl, rfl⟩

/-- The capability that a trap invokes lies in a valid slot of some CNode. -/
theorem Trap.Invokes.held {t : Trap} {sys : Syscall} {cap : Cap} (h : t.Invokes k sys cap) :
    ∃ r i, i < 256 ∧ (k.cnodes r).slots i = cap ∧ cap.isValid ≠ 0 := by
  have hcap := h.cap
  unfold invokedCap at hcap
  split at hcap
  · rename_i c hlook
    cases hcap
    obtain ⟨r, -, hlook⟩ := Option.bind_eq_some_iff.mp hlook
    obtain ⟨s, -, hs, hlt, hvalid, -⟩ := cnodeLookup_some hlook
    exact ⟨r, s, hlt, hs, hvalid⟩
  · split_ifs at hcap
    obtain ⟨s, -, hs, hlt, hvalid, -⟩ := cnodeLookup_some hcap
    exact ⟨.root, s, hlt, hs, hvalid⟩

/-! ### What a step can do -/

/-- A step does IPC or nothing, is an invocation, or is one of the other three events. -/
inductive StepEffect (env : BootEnv) (k : Kernel) : SystemEvent → Kernel → Prop
  | refused {e : SystemEvent} : StepEffect env k e k
  | ipc {t : Trap} {k' : Kernel} (h : IpcEffect k t k') : StepEffect env k (.trap t) k'
  | invoke {t : Trap} {cap : Cap} {k' : Kernel} (hcap : t.Invokes k .invoke cap)
      (h : Invoked k cap t.frame.a1 t.frame.a2 t.frame.a3 k') : StepEffect env k (.trap t) k'
  | tick {now : UInt64} :
      StepEffect env k (.tick now) { k with sched := schedTick k.sched now }
  | create {args : ProcessArgs} : StepEffect env k (.create args) (k.create env args).2.2
  | destroy {tcbId : UInt32} {mdb : Mdb} (hocc : Occupied k tcbId) :
      StepEffect env k (.destroy tcbId) (k.withoutThread env tcbId mdb)

theorem SystemStep.cases {e : SystemEvent} (h : SystemStep env k e k') : StepEffect env k e k' := by
  cases e with
  | trap t =>
    obtain rfl | heff | ⟨cap, hcap, rfl⟩ := Trap.after_cases h
    · exact .refused
    · exact .ipc heff
    · exact .invoke hcap (handleInvoke_invoked k cap _ _ _ _)
  | tick now =>
    obtain rfl : k' = _ := h
    exact .tick
  | create args =>
    obtain rfl := (Fuel.yields_of_forall fun _ => rfl).unique h
    exact .create
  | destroy tcbId =>
    obtain rfl | ⟨hocc, mdb, rfl⟩ := processStep_destroy_cases h
    · exact .refused
    · exact .destroy hocc

end Moonlight
