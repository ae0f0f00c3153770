/-
Constants, error codes and messages shared by every kernel component.

A C array is a total function on `Nat`.  The bounds are those the code itself
checks, and a cell past the end stands for whatever memory holds there.  The
exception is the pair of arrays inside an IPC message: the copy loops index
them with a count taken from user memory, so `copyLoop` returns `none` at the
first index outside the array.
-/
import Mathlib.Logic.Function.Basic

namespace Moonlight

/-- `kerror_t`. -/
inductive KError where
  | ok
  | invalidCap
  | noRights
  | invalidArg
  | noMem
  | revokeNeeded
  | overflow
  | partitionDenied
  | wcetExceeded
  deriving DecidableEq, Repr

/-- The numeric value the handler stores into the result register. -/
def KError.code : KError → UInt64
  | .ok => 0
  | .invalidCap => 1
  | .noRights => 2
  | .invalidArg => 3
  | .noMem => 4
  | .revokeNeeded => 5
  | .overflow => 6
  | .partitionDenied => 7
  | .wcetExceeded => 8

def pageSize : UInt64 := 4096

def maxPartitions : UInt32 := 8

def maxTcbs : UInt32 := 128

def ipcMsgMax : UInt32 := 30

def ipcCapsMax : UInt32 := 3

/-- `ipc_msg_t`.  `words` has `ipcMsgMax` cells and `capPtrs` has `ipcCapsMax`. -/
structure IpcMsg where
  label : UInt32
  length : UInt32
  caps : UInt32
  words : Nat → UInt64
  capPtrs : Nat → UInt32

def IpcMsg.zero : IpcMsg :=
  { label := 0, length := 0, caps := 0, words := fun _ => 0, capPtrs := fun _ => 0 }

/-- `for (i = 0; i < n; i++) dst[i] = src[i];` between two arrays of `bound`
cells.  The result is `none` when an iteration leaves the arrays. -/
def copyLoop {α : Type} (bound : Nat) (src dst : Nat → α) : Nat → Option (Nat → α)
  | 0 => some dst
  | n + 1 =>
      match copyLoop bound src dst n with
      | none => none
      | some d => if n < bound then some (Function.update d n (src n)) else none

theorem copyLoop_eq {α : Type} {bound n : Nat} (h : n ≤ bound) (src dst : Nat → α) :
    copyLoop bound src dst n = some (fun i => if i < n then src i else dst i) := by
  induction n with
  | zero => simp [copyLoop]
  | succ n ih =>
    rw [copyLoop, ih (by omega)]
    have hn : n < bound := by omega
    simp only [hn, if_true, Option.some.injEq]
    funext i
    by_cases hi : i = n
    · subst hi
      simp
    · rw [Function.update_of_ne hi]
      have hiff : i < n + 1 ↔ i < n := by omega
      simp only [hiff]

theorem copyLoop_eq_none {α : Type} {bound n : Nat} (h : bound < n) (src dst : Nat → α) :
    copyLoop bound src dst n = none := by
  induction n with
  | zero => omega
  | succ n ih =>
    rw [copyLoop]
    rcases Nat.lt_or_ge bound n with hlt | hge
    · rw [ih hlt]
    · rw [copyLoop_eq hge]
      have hn : ¬ n < bound := by omega
      simp [hn]

/-- `syscall_t`, as decoded from `a7` after the bound check of the dispatcher. -/
inductive Syscall where
  | call
  | replyRecv
  | send
  | yield
  | seal
  | invoke
  deriving DecidableEq, Repr

/-- `(syscall_t)frame->a7` with the test `sys > SYS_INVOKE`: the cast keeps the
low 32 bits, and `none` is the rejected number. -/
def Syscall.ofWord (w : UInt64) : Option Syscall :=
  match w.toUInt32.toNat with
  | 0 => some .call
  | 1 => some .replyRecv
  | 2 => some .send
  | 3 => some .yield
  | 4 => some .seal
  | 5 => some .invoke
  | _ => none

/-- `invoke_op_t`.  The dispatcher decodes one byte, so every other value falls
into the `default` branch of `handle_invoke`. -/
inductive InvokeOp where
  | untypedRetype
  | cnodeCopy
  | cnodeMint
  | cnodeMove
  | cnodeDelete
  | tcbConfigure
  | tcbResume
  | tcbSuspend
  | vspaceMap
  | vspaceUnmap
  | frameMap
  | schedBind
  | other
  deriving DecidableEq, Repr

def InvokeOp.ofWord (w : UInt64) : InvokeOp :=
  match w.toNat with
  | 0 => .untypedRetype
  | 1 => .cnodeCopy
  | 2 => .cnodeMint
  | 3 => .cnodeMove
  | 4 => .cnodeDelete
  | 5 => .tcbConfigure
  | 6 => .tcbResume
  | 7 => .tcbSuspend
  | 8 => .vspaceMap
  | 9 => .vspaceUnmap
  | 10 => .frameMap
  | 11 => .schedBind
  | _ => .other

end Moonlight
