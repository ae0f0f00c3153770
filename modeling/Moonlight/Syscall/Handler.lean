/-
The syscall dispatcher of the RISC-V build.

The two values `rdtime` yields, at entry and in the WCET check, are arguments.
Of the trap frame only the registers the handler touches are kept.
-/
import Moonlight.Syscall.Kernel

namespace Moonlight

/-- `trap_frame_t`: the argument registers and `a7`. -/
structure TrapFrame where
  a0 : UInt64
  a1 : UInt64
  a2 : UInt64
  a3 : UInt64
  a7 : UInt64

/-- How one case of the dispatcher's switch ends: a copy loop leaves its array, a
`return` inside the case, or a `break` with an error code and a new state. -/
inductive Outcome where
  | fault
  | ret (e : KError)
  | done (e : KError) (k : Kernel)

/-- `endpoint_send` through a pointer. -/
def endpointSendAt (k : Kernel) (ep : UInt64) (sender : UInt32) (msg : IpcMsg) : KError × Kernel :=
  if ep = 0 then (.invalidArg, k)
  else
    let r := endpointSend k.tcbs (k.endpoints ep) sender msg
    (r.1, { k with tcbs := r.2.1, endpoints := Function.update k.endpoints ep r.2.2 })

/-- `endpoint_recv` through a pointer. -/
def endpointRecvAt (k : Kernel) (ep : UInt64) (receiver : UInt32) :
    KError × Option IpcMsg × Kernel :=
  if ep = 0 then (.invalidArg, none, k)
  else
    let r := endpointRecv k.tcbs (k.endpoints ep) receiver
    (r.1, r.2.1,
      { k with tcbs := r.2.2.1, endpoints := Function.update k.endpoints ep r.2.2.2 })

def sysCall (k : Kernel) (cur : UInt32) (cap : Cap) (arg1 : UInt64) : Outcome :=
  if ¬ capHasRight cap (capRightsRead ||| capRightsWrite) then .ret .noRights
  else if cap.type ≠ .endpoint then .ret .invalidCap
  else
    let length := (arg1 &&& 0xFF).toUInt32
    if length > ipcMsgMax then .ret .invalidArg
    else
      let buffer := (k.tcbs.threads cur.toNat).ipcBuffer
      match copyLoop ipcMsgMax.toNat buffer.words (fun _ => 0) length.toNat with
      | none => .fault
      | some words =>
        let msg : IpcMsg := { IpcMsg.zero with length := length, words := words }
        let r := endpointSendAt k cap.u.epPtr cur msg
        if r.1 = .ok then
          let t := r.2.tcbs.threads cur.toNat
          .done r.1 (r.2.setThread cur { t with state := .blockedReply })
        else .done r.1 r.2

/-- Whether a message is waiting is read before the pointer is checked. -/
def sysReplyRecv (k : Kernel) (cur : UInt32) (cap : Cap) : Outcome :=
  if cap.type ≠ .endpoint then .ret .invalidCap
  else
    let ep := k.endpoints cap.u.epPtr
    let wasPending := ep.pending = true ∨ ep.qLen > 0
    let r := endpointRecvAt k cap.u.epPtr cur
    let t := r.2.2.tcbs.threads cur.toNat
    if r.1 = .ok ∧ wasPending then
      match r.2.1 with
      | none => .fault
      | some out =>
        match copyLoop ipcMsgMax.toNat out.words t.ipcBuffer.words out.length.toNat with
        | none => .fault
        | some words =>
          .done r.1 (r.2.2.setThread cur
            { t with ipcBuffer := { t.ipcBuffer with words := words, length := out.length } })
    else if r.1 = .ok then .done r.1 (r.2.2.setThread cur { t with state := .blockedRecv })
    else .done r.1 r.2.2

def sysSend (k : Kernel) (cur : UInt32) (cap : Cap) (arg1 : UInt64) : Outcome :=
  if cap.type ≠ .endpoint then .ret .invalidCap
  else
    let length := (arg1 &&& 0xFF).toUInt32
    if length > ipcMsgMax then .ret .invalidArg
    else
      let buffer := (k.tcbs.threads cur.toNat).ipcBuffer
      match copyLoop ipcMsgMax.toNat buffer.words (fun _ => 0) length.toNat with
      | none => .fault
      | some words =>
        match copyLoop ipcCapsMax.toNat buffer.capPtrs (fun _ => 0) buffer.caps.toNat with
        | none => .fault
        | some capPtrs =>
          let msg : IpcMsg :=
            { label := 0, length := length, caps := buffer.caps, words := words,
              capPtrs := capPtrs }
          let r := endpointSendAt k cap.u.epPtr cur msg
          .done r.1 r.2

def sysInvoke (k : Kernel) (cap : Cap) (f : TrapFrame) : Outcome :=
  let r := handleInvoke k cap (InvokeOp.ofWord (f.a1 &&& 0xFF)) f.a1 f.a2 f.a3
  .done r.1 r.2

/-- `cnode_lookup` in a thread's CSpace, which may be null. -/
def cspaceLookup (k : Kernel) (t : Tcb) (capPtr : UInt32) : Option Cap :=
  t.cspace.bind fun cn => cnodeLookup (k.cnodes cn) capPtr

/-- The capability a syscall invokes.  When the thread's own CSpace has none,
`SYS_INVOKE` with capability pointer zero takes the one the root CNode holds at
the index in `a1`. -/
def invokedCap (k : Kernel) (t : Tcb) (sys : Syscall) (f : TrapFrame) : Option Cap :=
  match cspaceLookup k t f.a0.toUInt32 with
  | some cap => some cap
  | none =>
    if sys = .invoke ∧ f.a0.toUInt32 = 0 then cnodeLookup k.root f.a1.toUInt32 else none

/-- The switch.  Only `SYS_YIELD` gets here without a capability. -/
def dispatch (k : Kernel) (f : TrapFrame) (cur : UInt32) (sys : Syscall) (cap : Option Cap) :
    Outcome :=
  match sys, cap with
  | .call, some cap => sysCall k cur cap f.a1
  | .replyRecv, some cap => sysReplyRecv k cur cap
  | .send, some cap => sysSend k cur cap f.a1
  | .yield, _ => .done .ok k
  | .invoke, some cap => sysInvoke k cap f
  | _, _ => .done .invalidArg k

/-- The end of the handler: the WCET check, then the result register. -/
def finish (k : Kernel) (f : TrapFrame) (entry now : UInt64) :
    Outcome → Option (KError × TrapFrame × Kernel)
  | .fault => none
  | .ret e => some (e, f, k)
  | .done e k' =>
      if wcetCheck entry now then some (e, { f with a0 := e.code }, k')
      else some (.wcetExceeded, f, k')

/-- `syscall_handler` on a non-null frame; `none` is a copy loop that left its
array. -/
def syscallHandler (k : Kernel) (f : TrapFrame) (cur : UInt32) (entry now : UInt64) :
    Option (KError × TrapFrame × Kernel) :=
  match Syscall.ofWord f.a7 with
  | none => some (.invalidArg, f, k)
  | some sys =>
    let t := k.tcbs.threads cur.toNat
    if ¬ tcbIsRunnable t ∧ sys ≠ .yield then some (.partitionDenied, f, k)
    else if sys ≠ .yield ∧ invokedCap k t sys f = none then some (.invalidCap, f, k)
    else if (k.sched.contexts t.schedContext.toNat).remainingUs = 0 then some (.wcetExceeded, f, k)
    else finish k f entry now (dispatch k f cur sys (invokedCap k t sys f))

/-! ### What the dispatcher lets through -/

/-- The checks before the switch: a known number, a runnable thread, a capability
and budget left. -/
structure Admitted (k : Kernel) (f : TrapFrame) (cur : UInt32) (sys : Syscall) : Prop where
  number : Syscall.ofWord f.a7 = some sys
  runnable : tcbIsRunnable (k.tcbs.threads cur.toNat) = true ∨ sys = .yield
  cap : sys = .yield ∨ invokedCap k (k.tcbs.threads cur.toNat) sys f ≠ none
  budget : (k.sched.contexts (k.tcbs.threads cur.toNat).schedContext.toNat).remainingUs ≠ 0

/-- A syscall is refused with no effect, or it reaches the switch. -/
theorem syscallHandler_cases (k : Kernel) (f : TrapFrame) (cur : UInt32) (entry now : UInt64) :
    (∃ sys, Admitted k f cur sys ∧ syscallHandler k f cur entry now =
      finish k f entry now
        (dispatch k f cur sys (invokedCap k (k.tcbs.threads cur.toNat) sys f))) ∨
    ((∀ sys, ¬ Admitted k f cur sys) ∧
      ∃ e, e ≠ .ok ∧ syscallHandler k f cur entry now = some (e, f, k)) := by
  unfold syscallHandler
  cases hsys : Syscall.ofWord f.a7 with
  | none =>
    refine Or.inr ⟨fun sys h => ?_, .invalidArg, by decide, rfl⟩
    rw [h.number] at hsys
    cases hsys
  | some sys =>
    have huniq : ∀ {sys'}, Admitted k f cur sys' → sys' = sys :=
      fun h => Option.some.inj (h.number.symm.trans hsys)
    simp only
    by_cases hrun : ¬ tcbIsRunnable (k.tcbs.threads cur.toNat) = true ∧ sys ≠ .yield
    · rw [if_pos hrun]
      refine Or.inr ⟨fun sys' h => ?_, .partitionDenied, by decide, rfl⟩
      obtain rfl := huniq h
      exact h.runnable.elim hrun.1 hrun.2
    rw [if_neg hrun]
    by_cases hcap : sys ≠ .yield ∧ invokedCap k (k.tcbs.threads cur.toNat) sys f = none
    · rw [if_pos hcap]
      refine Or.inr ⟨fun sys' h => ?_, .invalidCap, by decide, rfl⟩
      obtain rfl := huniq h
      exact h.cap.elim hcap.1 fun hne => hne hcap.2
    rw [if_neg hcap]
    by_cases hbudget :
        (k.sched.contexts (k.tcbs.threads cur.toNat).schedContext.toNat).remainingUs = 0
    · rw [if_pos hbudget]
      exact Or.inr ⟨fun sys' h => h.budget hbudget, .wcetExceeded, by decide, rfl⟩
    rw [if_neg hbudget]
    refine Or.inl ⟨sys, ⟨hsys, ?_, ?_, hbudget⟩, rfl⟩
    · rw [not_and_or, not_not, not_not] at hrun
      exact hrun
    · rw [not_and_or, not_not] at hcap
      exact hcap

theorem Admitted.handler {k : Kernel} {f : TrapFrame} {cur : UInt32} {sys : Syscall}
    (h : Admitted k f cur sys) (entry now : UInt64) :
    syscallHandler k f cur entry now =
      finish k f entry now
        (dispatch k f cur sys (invokedCap k (k.tcbs.threads cur.toNat) sys f)) := by
  obtain ⟨sys', hadm, heq⟩ | ⟨hnot, -⟩ := syscallHandler_cases k f cur entry now
  · obtain rfl : sys' = sys := Option.some.inj (hadm.number.symm.trans h.number)
    exact heq
  · exact absurd h (hnot sys)

theorem finish_done (k k' : Kernel) (f : TrapFrame) (entry now : UInt64) (e : KError) :
    ∃ e' f', finish k f entry now (.done e k') = some (e', f', k') := by
  simp only [finish]
  split_ifs
  · exact ⟨_, _, rfl⟩
  · exact ⟨_, _, rfl⟩

theorem finish_ok {k k' : Kernel} {f f' : TrapFrame} {entry now : UInt64} {o : Outcome}
    (h : finish k f entry now o = some (.ok, f', k')) : o = .done .ok k' ∨ o = .ret .ok := by
  cases o with
  | fault => cases h
  | ret e =>
    simp only [finish, Option.some.injEq, Prod.mk.injEq] at h
    exact Or.inr (by rw [h.1])
  | done e k'' =>
    simp only [finish] at h
    split_ifs at h
    · simp only [Option.some.injEq, Prod.mk.injEq] at h
      exact Or.inl (by rw [h.1, h.2.2])
    · cases h

theorem sysCall_ne_ret_ok (k : Kernel) (cur : UInt32) (cap : Cap) (arg1 : UInt64) :
    sysCall k cur cap arg1 ≠ .ret .ok := by
  intro h
  simp only [sysCall] at h
  split at h
  · cases h
  split at h
  · cases h
  split at h
  · cases h
  split at h
  · cases h
  · split at h <;> cases h

theorem sysSend_ne_ret_ok (k : Kernel) (cur : UInt32) (cap : Cap) (arg1 : UInt64) :
    sysSend k cur cap arg1 ≠ .ret .ok := by
  intro h
  simp only [sysSend] at h
  split_ifs at h
  · cases h
  · cases h
  · split at h
    · cases h
    · split at h <;> cases h

theorem sysReplyRecv_ne_ret_ok (k : Kernel) (cur : UInt32) (cap : Cap) :
    sysReplyRecv k cur cap ≠ .ret .ok := by
  intro h
  simp only [sysReplyRecv] at h
  split_ifs at h
  · cases h
  · split at h
    · cases h
    · split at h <;> cases h

theorem dispatch_ne_ret_ok (k : Kernel) (f : TrapFrame) (cur : UInt32) (sys : Syscall)
    (cap : Option Cap) : dispatch k f cur sys cap ≠ .ret .ok := by
  cases cap with
  | none =>
    intro h
    cases sys <;> cases h
  | some cap =>
    cases sys with
    | call => exact sysCall_ne_ret_ok k cur cap f.a1
    | replyRecv => exact sysReplyRecv_ne_ret_ok k cur cap
    | send => exact sysSend_ne_ret_ok k cur cap f.a1
    | yield => exact fun h => by cases h
    | «seal» => exact fun h => by cases h
    | invoke => exact fun h => by cases h

/-- A syscall that returns `ERR_OK` is an admitted one whose case ended with it. -/
theorem syscallHandler_ok {k k' : Kernel} {f f' : TrapFrame} {cur : UInt32} {entry now : UInt64}
    (h : syscallHandler k f cur entry now = some (.ok, f', k')) :
    ∃ sys, Admitted k f cur sys ∧
      dispatch k f cur sys (invokedCap k (k.tcbs.threads cur.toNat) sys f) = .done .ok k' := by
  obtain ⟨sys, hadm, heq⟩ | ⟨-, e, hne, heq⟩ := syscallHandler_cases k f cur entry now
  · rw [heq] at h
    exact ⟨sys, hadm, (finish_ok h).resolve_right (dispatch_ne_ret_ok k f cur sys _)⟩
  · rw [heq] at h
    cases h
    exact absurd rfl hne

end Moonlight
