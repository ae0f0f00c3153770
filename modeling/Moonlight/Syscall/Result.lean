/-
The result register.

`syscall_handler` stores its error code into the frame only at its very end.  The
returns before the switch, inside it and at the WCET check leave the frame alone,
and the register still holds the capability pointer of the request.
-/
import Moonlight.Syscall.Ipc

namespace Moonlight

/-- The thread a syscall runs for. -/
def callerOf (k : Kernel) (cur : UInt32) : Tcb := k.tcbs.threads cur.toNat

/-- The case of the switch runs to its `break`. -/
def Completes (k : Kernel) (cur : UInt32) (arg1 : UInt64) : Syscall → Option Cap → Prop
  | .call, some cap => CallAllowed cap arg1
  | .send, some cap => SendAllowed cap arg1 ∧ (k.ipcBuffer cur).caps ≤ ipcCapsMax
  | .replyRecv, some cap => cap.type = .endpoint ∧ (cap.u.epPtr ≠ 0 →
      ∀ msg, (k.endpoints cap.u.epPtr).next = some msg → msg.length ≤ ipcMsgMax)
  | _, _ => True

/-- The returns that do not store the result, each with the guard that leads to it. -/
inductive EarlyReturn (k : Kernel) (f : TrapFrame) (cur : UInt32) (entry now : UInt64) :
    KError → Prop
  | number (hnumber : Syscall.ofWord f.a7 = none) : EarlyReturn k f cur entry now .invalidArg
  | thread {sys : Syscall} (hnumber : Syscall.ofWord f.a7 = some sys) (hsys : sys ≠ .yield)
      (hthread : tcbIsRunnable (callerOf k cur) = false) :
      EarlyReturn k f cur entry now .partitionDenied
  | capability {sys : Syscall} (hnumber : Syscall.ofWord f.a7 = some sys) (hsys : sys ≠ .yield)
      (hthread : tcbIsRunnable (callerOf k cur) = true)
      (hcap : invokedCap k (callerOf k cur) sys f = none) :
      EarlyReturn k f cur entry now .invalidCap
  | budget {sys : Syscall} (hnumber : Syscall.ofWord f.a7 = some sys)
      (hcap : sys = .yield ∨ tcbIsRunnable (callerOf k cur) = true ∧
        invokedCap k (callerOf k cur) sys f ≠ none)
      (hbudget : (k.sched.contexts (callerOf k cur).schedContext.toNat).remainingUs = 0) :
      EarlyReturn k f cur entry now .wcetExceeded
  | callRights {cap : Cap} (hadm : Admitted k f cur .call)
      (hcap : invokedCap k (callerOf k cur) .call f = some cap)
      (hrights : capHasRight cap (capRightsRead ||| capRightsWrite) = false) :
      EarlyReturn k f cur entry now .noRights
  | callType {cap : Cap} (hadm : Admitted k f cur .call)
      (hcap : invokedCap k (callerOf k cur) .call f = some cap)
      (hrights : capHasRight cap (capRightsRead ||| capRightsWrite) = true)
      (htype : cap.type ≠ .endpoint) : EarlyReturn k f cur entry now .invalidCap
  | callLength {cap : Cap} (hadm : Admitted k f cur .call)
      (hcap : invokedCap k (callerOf k cur) .call f = some cap)
      (hrights : capHasRight cap (capRightsRead ||| capRightsWrite) = true)
      (htype : cap.type = .endpoint) (hlength : ipcMsgMax < ipcLength f.a1) :
      EarlyReturn k f cur entry now .invalidArg
  | recvType {cap : Cap} (hadm : Admitted k f cur .replyRecv)
      (hcap : invokedCap k (callerOf k cur) .replyRecv f = some cap)
      (htype : cap.type ≠ .endpoint) : EarlyReturn k f cur entry now .invalidCap
  | sendType {cap : Cap} (hadm : Admitted k f cur .send)
      (hcap : invokedCap k (callerOf k cur) .send f = some cap)
      (htype : cap.type ≠ .endpoint) : EarlyReturn k f cur entry now .invalidCap
  | sendLength {cap : Cap} (hadm : Admitted k f cur .send)
      (hcap : invokedCap k (callerOf k cur) .send f = some cap)
      (htype : cap.type = .endpoint) (hlength : ipcMsgMax < ipcLength f.a1) :
      EarlyReturn k f cur entry now .invalidArg
  | wcet {sys : Syscall} (hadm : Admitted k f cur sys)
      (hdone : Completes k cur f.a1 sys (invokedCap k (callerOf k cur) sys f))
      (hwcet : wcetCheck entry now = false) : EarlyReturn k f cur entry now .wcetExceeded

variable {k : Kernel} {f : TrapFrame} {cur : UInt32} {entry now : UInt64}

/-! ### How a case of the switch ends -/

/-- The end of a case agrees with its guards. -/
def EndsAs (k : Kernel) (f : TrapFrame) (cur : UInt32) (entry now : UInt64) (sys : Syscall)
    (cap : Option Cap) : Outcome → Prop
  | .fault => ¬ Completes k cur f.a1 sys cap
  | .ret e => ¬ Completes k cur f.a1 sys cap ∧ EarlyReturn k f cur entry now e
  | .done _ _ => Completes k cur f.a1 sys cap

theorem sysCall_endsAs {cap : Cap} (hadm : Admitted k f cur .call)
    (hcap : invokedCap k (callerOf k cur) .call f = some cap) :
    EndsAs k f cur entry now .call (some cap) (sysCall k cur cap f.a1) := by
  by_cases hallowed : CallAllowed cap f.a1
  · obtain ⟨e, k', -, heq⟩ := sysCall_done hallowed k cur
    rw [heq]
    exact hallowed
  · rw [sysCall_ret hallowed]
    refine ⟨hallowed, ?_⟩
    split_ifs with hrights htype
    · refine .callLength hadm hcap hrights htype (UInt32.not_le.mp fun hle => ?_)
      exact hallowed ⟨⟨htype, hle⟩, hrights⟩
    · exact .callType hadm hcap hrights htype
    · exact .callRights hadm hcap (by simpa using hrights)

theorem sysSend_endsAs {cap : Cap} (hadm : Admitted k f cur .send)
    (hcap : invokedCap k (callerOf k cur) .send f = some cap) :
    EndsAs k f cur entry now .send (some cap) (sysSend k cur cap f.a1) := by
  by_cases hallowed : SendAllowed cap f.a1
  · by_cases hcaps : (k.ipcBuffer cur).caps ≤ ipcCapsMax
    · obtain ⟨e, k', -, heq⟩ := sysSend_done hallowed hcaps
      rw [heq]
      exact ⟨hallowed, hcaps⟩
    · rw [sysSend_fault hallowed (UInt32.not_le.mp hcaps)]
      exact fun h => hcaps h.2
  · rw [sysSend_ret hallowed]
    refine ⟨fun h => hallowed h.1, ?_⟩
    split_ifs with htype
    · refine .sendLength hadm hcap htype (UInt32.not_le.mp fun hle => ?_)
      exact hallowed ⟨htype, hle⟩
    · exact .sendType hadm hcap htype

theorem sysReplyRecv_endsAs {cap : Cap} (hadm : Admitted k f cur .replyRecv)
    (hcap : invokedCap k (callerOf k cur) .replyRecv f = some cap) :
    EndsAs k f cur entry now .replyRecv (some cap) (sysReplyRecv k cur cap) := by
  by_cases htype : cap.type = .endpoint
  · by_cases hep : cap.u.epPtr = 0
    · rw [sysReplyRecv_null htype hep]
      exact ⟨htype, fun hne => absurd hep hne⟩
    · cases hnext : (k.endpoints cap.u.epPtr).next with
      | none =>
        rw [sysReplyRecv_waits htype hep cur hnext]
        refine ⟨htype, fun _ msg hmsg => ?_⟩
        rw [hnext] at hmsg
        cases hmsg
      | some msg =>
        by_cases hlen : msg.length ≤ ipcMsgMax
        · rw [sysReplyRecv_takes htype hep cur hnext hlen]
          refine ⟨htype, fun _ msg' hmsg' => ?_⟩
          rw [hnext] at hmsg'
          cases hmsg'
          exact hlen
        · rw [sysReplyRecv_fault htype hep cur hnext (UInt32.not_le.mp hlen)]
          exact fun h => hlen (h.2 hep msg hnext)
  · rw [sysReplyRecv_ret htype]
    exact ⟨fun h => htype h.1, .recvType hadm hcap htype⟩

theorem dispatch_endsAs (entry now : UInt64) {sys : Syscall} (hadm : Admitted k f cur sys) :
    EndsAs k f cur entry now sys (invokedCap k (callerOf k cur) sys f)
      (dispatch k f cur sys (invokedCap k (callerOf k cur) sys f)) := by
  cases hcap : invokedCap k (callerOf k cur) sys f with
  | none => cases sys <;> trivial
  | some cap =>
    cases sys with
    | call => exact sysCall_endsAs hadm hcap
    | replyRecv => exact sysReplyRecv_endsAs hadm hcap
    | send => exact sysSend_endsAs hadm hcap
    | yield => trivial
    | «seal» => trivial
    | invoke => trivial

/-! ### The two ways a syscall returns -/

theorem syscallHandler_admitted {sys : Syscall} (h : Admitted k f cur sys) :
    syscallHandler k f cur entry now =
      finish k f entry now (dispatch k f cur sys (invokedCap k (callerOf k cur) sys f)) :=
  h.handler entry now

/-- An early return happens where its guard says, with the frame as it came. -/
theorem EarlyReturn.returns {e : KError} (h : EarlyReturn k f cur entry now e) :
    ∃ k', syscallHandler k f cur entry now = some (e, f, k') := by
  cases h with
  | number hnumber => exact ⟨k, by rw [syscallHandler, hnumber]⟩
  | thread hnumber hsys hthread =>
    refine ⟨k, ?_⟩
    unfold callerOf at hthread
    simp [syscallHandler, hnumber, hsys, hthread]
  | capability hnumber hsys hthread hcap =>
    refine ⟨k, ?_⟩
    unfold callerOf at hthread hcap
    simp [syscallHandler, hnumber, hsys, hthread, hcap]
  | budget hnumber hcap hbudget =>
    refine ⟨k, ?_⟩
    unfold callerOf at hcap hbudget
    rcases hcap with rfl | ⟨hthread, hcap⟩
    · simp [syscallHandler, hnumber, hbudget]
    · simp [syscallHandler, hnumber, hthread, hcap, hbudget]
  | callRights hadm hcap hrights =>
    refine ⟨k, ?_⟩
    rw [syscallHandler_admitted hadm, hcap, dispatch, sysCall_ret fun h => by
      rw [h.rights] at hrights
      cases hrights]
    simp [finish, hrights]
  | callType hadm hcap hrights htype =>
    refine ⟨k, ?_⟩
    rw [syscallHandler_admitted hadm, hcap, dispatch, sysCall_ret fun h => htype h.type]
    simp [finish, hrights, htype]
  | callLength hadm hcap hrights htype hlength =>
    refine ⟨k, ?_⟩
    rw [syscallHandler_admitted hadm, hcap, dispatch,
      sysCall_ret fun h => UInt32.not_le.mpr hlength h.length]
    simp [finish, hrights, htype]
  | recvType hadm hcap htype =>
    refine ⟨k, ?_⟩
    rw [syscallHandler_admitted hadm, hcap, dispatch, sysReplyRecv_ret htype, finish]
  | sendType hadm hcap htype =>
    refine ⟨k, ?_⟩
    rw [syscallHandler_admitted hadm, hcap, dispatch, sysSend_ret fun h => htype h.type]
    simp [finish, htype]
  | sendLength hadm hcap htype hlength =>
    refine ⟨k, ?_⟩
    rw [syscallHandler_admitted hadm, hcap, dispatch,
      sysSend_ret fun h => UInt32.not_le.mpr hlength h.length]
    simp [finish, htype]
  | @wcet sys hadm hdone hwcet =>
    rw [syscallHandler_admitted hadm]
    have hends := dispatch_endsAs entry now hadm
    cases hout : dispatch k f cur sys (invokedCap k (callerOf k cur) sys f) with
    | fault =>
      rw [hout] at hends
      exact absurd hdone hends
    | ret e =>
      rw [hout] at hends
      exact absurd hdone hends.1
    | done e k' => exact ⟨k', by simp [finish, hwcet]⟩

/-- A syscall that does not reach the switch is stopped by one of the guards before it. -/
theorem earlyReturn_of_not_admitted (hnot : ∀ sys, ¬ Admitted k f cur sys) :
    ∃ e, EarlyReturn k f cur entry now e := by
  cases hsys : Syscall.ofWord f.a7 with
  | none => exact ⟨_, .number hsys⟩
  | some sys =>
    by_cases hrun : tcbIsRunnable (callerOf k cur) = true ∨ sys = .yield
    swap
    · rw [not_or] at hrun
      exact ⟨_, .thread hsys hrun.2 (Bool.eq_false_iff.mpr hrun.1)⟩
    by_cases hcap : sys = .yield ∨ invokedCap k (callerOf k cur) sys f ≠ none
    swap
    · rw [not_or, not_not] at hcap
      exact ⟨_, .capability hsys hcap.1 (hrun.resolve_right hcap.1) hcap.2⟩
    by_cases hbudget : (k.sched.contexts (callerOf k cur).schedContext.toNat).remainingUs = 0
    swap
    · exact absurd ⟨hsys, hrun, hcap, hbudget⟩ (hnot sys)
    refine ⟨_, .budget hsys ?_ hbudget⟩
    by_cases hyield : sys = .yield
    · exact Or.inl hyield
    · exact Or.inr ⟨hrun.resolve_right hyield, hcap.resolve_left hyield⟩

theorem admitted_returns {sys : Syscall} (hadm : Admitted k f cur sys) {e : KError} {f' : TrapFrame}
    {k' : Kernel} (h : syscallHandler k f cur entry now = some (e, f', k')) :
    f' = f ∧ EarlyReturn k f cur entry now e ∨ f'.a0 = e.code := by
  rw [syscallHandler_admitted hadm] at h
  have hends := dispatch_endsAs entry now hadm
  cases hout : dispatch k f cur sys (invokedCap k (callerOf k cur) sys f) with
  | fault =>
    rw [hout] at h
    cases h
  | ret e =>
    rw [hout] at h hends
    cases h
    exact Or.inl ⟨rfl, hends.2⟩
  | done e k' =>
    rw [hout] at h hends
    simp only [finish] at h
    split_ifs at h with hwcet
    · cases h
      exact Or.inr rfl
    · cases h
      exact Or.inl ⟨rfl, .wcet hadm hends (by simpa using hwcet)⟩

/-- Every return is an early one or has stored its code. -/
theorem syscallHandler_returns {e : KError} {f' : TrapFrame} {k' : Kernel}
    (h : syscallHandler k f cur entry now = some (e, f', k')) :
    f' = f ∧ EarlyReturn k f cur entry now e ∨ f'.a0 = e.code := by
  by_cases hadm : ∃ sys, Admitted k f cur sys
  · obtain ⟨sys, hadm⟩ := hadm
    exact admitted_returns hadm h
  · obtain ⟨e', hearly⟩ := earlyReturn_of_not_admitted (not_exists.mp hadm)
    obtain ⟨k'', hreturns⟩ := hearly.returns
    rw [hreturns] at h
    cases h
    exact Or.inl ⟨rfl, hearly⟩

/-- The frame's `a0` carries the result exactly when every early return that is taken
finds its own error number already there. -/
theorem syscallHandler_result_iff (k : Kernel) (f : TrapFrame) (cur : UInt32)
    (entry now : UInt64) :
    (∀ e f' k', syscallHandler k f cur entry now = some (e, f', k') → f'.a0 = e.code) ↔
      ∀ e, EarlyReturn k f cur entry now e → f.a0 = e.code := by
  constructor
  · intro h e he
    obtain ⟨k', hret⟩ := he.returns
    exact h e f k' hret
  · intro h e f' k' hret
    obtain ⟨rfl, he⟩ | hstored := syscallHandler_returns hret
    · exact h e he
    · exact hstored

/-- `SYS_SEND` on capability pointer zero by boot's first thread, whose CSpace is null:
the call fails and the register reads as `ERR_OK`. -/
theorem syscallHandler_reports_ok :
    ¬ ∀ e f' k', syscallHandler (bootKernel plainBoot)
      { a0 := 0, a1 := 0, a2 := 0, a3 := 0, a7 := 2 } 0 0 0 = some (e, f', k') →
        f'.a0 = e.code := by
  intro h
  have hret : syscallHandler (bootKernel plainBoot)
      { a0 := 0, a1 := 0, a2 := 0, a3 := 0, a7 := 2 } 0 0 0 =
        some (.invalidCap, { a0 := 0, a1 := 0, a2 := 0, a3 := 0, a7 := 2 },
          bootKernel plainBoot) := by
    rfl
  exact absurd (h _ _ _ hret) (by decide)

end Moonlight
