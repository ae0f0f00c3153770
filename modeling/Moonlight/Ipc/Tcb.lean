/-
Thread control blocks and the four functions that change a thread's state.
-/
import Moonlight.Capability.CNode

namespace Moonlight

inductive TcbState where
  | inactive
  | runnable
  | blockedSend
  | blockedRecv
  | blockedReply
  deriving DecidableEq, Repr

/-- A non-null `cnode_t *`: the global root CNode or another CNode object. -/
inductive CNodeRef where
  | root
  | other (n : Nat)
  deriving DecidableEq, Repr

/-- `tcb_t`, with `none` for a null `cspace`. -/
structure Tcb where
  id : UInt32
  state : TcbState
  pc : UInt64
  sp : UInt64
  csp : SimCap
  pcc : SimCap
  cspace : Option CNodeRef
  vspaceRoot : UInt64
  asid : UInt32
  timePartition : UInt32
  schedContext : UInt32
  priority : UInt32
  ipcBuffer : IpcMsg
  faultAddr : UInt64
  faultType : UInt32

def Tcb.zero : Tcb :=
  { id := 0, state := .inactive, pc := 0, sp := 0, csp := SimCap.zero, pcc := SimCap.zero,
    cspace := none, vspaceRoot := 0, asid := 0, timePartition := 0, schedContext := 0,
    priority := 0, ipcBuffer := IpcMsg.zero, faultAddr := 0, faultType := 0 }

structure TcbTable where
  threads : Nat → Tcb
  count : UInt32

def TcbTable.set (tcbs : TcbTable) (i : Nat) (t : Tcb) : TcbTable :=
  { tcbs with threads := Function.update tcbs.threads i t }

@[simp] theorem TcbTable.set_self (tcbs : TcbTable) (i : Nat) (t : Tcb) :
    (tcbs.set i t).threads i = t := Function.update_self ..

theorem TcbTable.set_ne {i j : Nat} (h : j ≠ i) (tcbs : TcbTable) (t : Tcb) :
    (tcbs.set i t).threads j = tcbs.threads j := Function.update_of_ne h ..

/-- `tcb_configure` with a non-null CSpace. -/
def tcbConfigure (t : Tcb) (cspace : CNodeRef) (vspaceRoot : UInt64) (asid partition : UInt32) :
    Tcb :=
  { t with
    cspace := some cspace, vspaceRoot := vspaceRoot, asid := asid, timePartition := partition,
    state := .inactive }

def tcbSuspend (t : Tcb) : Tcb := { t with state := .inactive }

def tcbResume (t : Tcb) : Tcb :=
  if t.state = .inactive ∨ t.state = .blockedRecv ∨ t.state = .blockedSend ∨
      t.state = .blockedReply then
    { t with state := .runnable }
  else t

def tcbIsRunnable (t : Tcb) : Bool := t.state = .runnable

/-- The sender's id is an argument of the source that it discards. -/
def tcbWakeFromIpc (t : Tcb) : KError × Tcb :=
  if t.state ≠ .blockedRecv ∧ t.state ≠ .blockedReply then (.invalidArg, t)
  else (.ok, { t with state := .runnable, faultAddr := 0, faultType := 0 })

/-- A wake-up leaves the IPC buffer and the CSpace of the thread alone. -/
structure Tcb.IpcKept (t t' : Tcb) : Prop where
  ipcBuffer : t'.ipcBuffer = t.ipcBuffer
  cspace : t'.cspace = t.cspace

theorem Tcb.IpcKept.refl (t : Tcb) : IpcKept t t := ⟨rfl, rfl⟩

theorem tcbWakeFromIpc_kept (t : Tcb) : Tcb.IpcKept t (tcbWakeFromIpc t).2 := by
  unfold tcbWakeFromIpc
  split_ifs
  · exact Tcb.IpcKept.refl t
  · exact ⟨rfl, rfl⟩

theorem tcbResume_kept (t : Tcb) : Tcb.IpcKept t (tcbResume t) := by
  unfold tcbResume
  split_ifs
  · exact ⟨rfl, rfl⟩
  · exact Tcb.IpcKept.refl t

theorem TcbTable.set_kept {tcbs : TcbTable} {i : Nat} {t : Tcb}
    (h : Tcb.IpcKept (tcbs.threads i) t) (j : Nat) :
    Tcb.IpcKept (tcbs.threads j) ((tcbs.set i t).threads j) := by
  by_cases hj : j = i
  · subst hj
    rw [TcbTable.set_self]
    exact h
  · rw [TcbTable.set_ne hj]
    exact Tcb.IpcKept.refl _

end Moonlight
