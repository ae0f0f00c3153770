/-
The copy loops of the IPC syscalls stay inside their arrays.

`SYS_CALL` and `SYS_SEND` check the length before they copy words, and a receive
copies as many words as the stored message has, which `endpoint_send` has checked.
The capability pointers of `SYS_SEND` are copied before `endpoint_send` looks at
their number.
-/
import Moonlight.Ipc.Conservation
import Moonlight.Syscall.Mediation

namespace Moonlight

/-- An endpoint state some sequence of sends and receives leads to. -/
def Endpoint.Reached (ep : Endpoint) : Prop :=
  ∃ tcbs calls, (Run.exec EpHistory.step (EpHistory.start tcbs) calls).ep = ep

/-- Every message in the endpoint's memory fits its arrays. -/
structure Endpoint.Fits (ep : Endpoint) : Prop where
  pendingMsg : MsgFits ep.pendingMsg
  queueMsgs : ∀ i, MsgFits (ep.queueMsgs i)

theorem IpcMsg.zero_fits : MsgFits IpcMsg.zero := ⟨by decide, by decide⟩

theorem Endpoint.zero_fits : Endpoint.zero.Fits :=
  { pendingMsg := IpcMsg.zero_fits, queueMsgs := fun _ => IpcMsg.zero_fits }

theorem endpointSend_fits {tcbs : TcbTable} {ep : Endpoint} (h : ep.Fits) (sender : UInt32)
    (msg : IpcMsg) : (endpointSend tcbs ep sender msg).2.2.Fits := by
  rcases endpointSend_cases tcbs ep sender msg with
    ⟨-, heq⟩ | ⟨hfits, -, heq⟩ | ⟨-, -, -, heq⟩ | ⟨hfits, -, -, heq⟩
  · rw [heq]
    exact h
  · rw [heq]
    exact ⟨hfits, h.queueMsgs⟩
  · rw [heq]
    exact h
  · rw [heq]
    refine ⟨hfits, fun i => ?_⟩
    by_cases hi : i = ep.qTail.toNat
    · subst hi
      simp only [Function.update_self]
      exact hfits
    · simp only [Function.update_of_ne hi]
      exact h.queueMsgs i

theorem endpointRecv_fits {tcbs : TcbTable} {ep : Endpoint} (h : ep.Fits) (receiver : UInt32) :
    (endpointRecv tcbs ep receiver).2.2.2.Fits := by
  unfold endpointRecv
  split_ifs
  · simp only
    split_ifs
    · exact ⟨h.pendingMsg, h.queueMsgs⟩
    · exact ⟨h.queueMsgs _, h.queueMsgs⟩
  · exact ⟨h.pendingMsg, h.queueMsgs⟩
  · exact ⟨h.pendingMsg, h.queueMsgs⟩

theorem EpHistory.step_fits (h : EpHistory) (c : EpCall) (hfits : h.ep.Fits) :
    (h.step c).ep.Fits := by
  cases c with
  | send sender msg => exact endpointSend_fits hfits sender msg
  | recv receiver => exact endpointRecv_fits hfits receiver

theorem Endpoint.Reached.fits {ep : Endpoint} (h : ep.Reached) : ep.Fits := by
  obtain ⟨tcbs, calls, rfl⟩ := h
  exact Run.exec_invariant_of_forall EpHistory.step_fits calls Endpoint.zero_fits

theorem Endpoint.Fits.next {ep : Endpoint} (h : ep.Fits) {msg : IpcMsg}
    (hnext : ep.next = some msg) : MsgFits msg := by
  unfold Endpoint.next at hnext
  split_ifs at hnext
  · cases hnext
    exact h.queueMsgs _
  · cases hnext
    exact h.pendingMsg

/-- A `SYS_SEND` that passes its checks with more capabilities in the caller's buffer
than the array has. -/
def OverrunsCaps (k : Kernel) (t : Trap) : Prop :=
  ∃ cap, t.Invokes k .send cap ∧ SendAllowed cap t.frame.a1 ∧
    ipcCapsMax < (k.ipcBuffer t.cur).caps

variable {k : Kernel} {t : Trap}

theorem OverrunsCaps.faults (h : OverrunsCaps k t) :
    syscallHandler k t.frame t.cur t.entry t.now = none := by
  obtain ⟨cap, hinv, hallowed, hcaps⟩ := h
  rw [hinv.handler, dispatch, sysSend_fault hallowed hcaps, finish]

theorem finish_eq_none {f : TrapFrame} {entry now : UInt64} {o : Outcome}
    (h : finish k f entry now o = none) : o = .fault := by
  cases o with
  | fault => rfl
  | ret e => cases h
  | done e k' =>
    obtain ⟨e', f', hdone⟩ := finish_done k k' f entry now e
    rw [hdone] at h
    cases h

theorem sysCall_ne_fault (k : Kernel) (cur : UInt32) (cap : Cap) (arg1 : UInt64) :
    sysCall k cur cap arg1 ≠ .fault := by
  intro h
  by_cases hallowed : CallAllowed cap arg1
  · obtain ⟨e, k', -, heq⟩ := sysCall_done hallowed k cur
    rw [heq] at h
    cases h
  · rw [sysCall_ret hallowed] at h
    cases h

theorem sysReplyRecv_ne_fault {cap : Cap} (hfits : ∀ ep, (k.endpoints ep).Fits) (cur : UInt32) :
    sysReplyRecv k cur cap ≠ .fault := by
  intro h
  by_cases htype : cap.type = .endpoint
  · by_cases hep : cap.u.epPtr = 0
    · rw [sysReplyRecv_null htype hep] at h
      cases h
    · cases hnext : (k.endpoints cap.u.epPtr).next with
      | none =>
        rw [sysReplyRecv_waits htype hep cur hnext] at h
        cases h
      | some msg =>
        have hlen := ((hfits cap.u.epPtr).next hnext).1
        rw [sysReplyRecv_takes htype hep cur hnext hlen] at h
        cases h
  · rw [sysReplyRecv_ret htype] at h
    cases h

/-- With endpoints that only `endpoint_send` and `endpoint_recv` have written, a
syscall stays inside its arrays unless it is a send whose buffer counts too many
capabilities. -/
theorem ipc_in_bounds_iff (hreached : ∀ ep, (k.endpoints ep).Reached) :
    syscallHandler k t.frame t.cur t.entry t.now ≠ none ↔ ¬ OverrunsCaps k t := by
  refine ⟨fun hne hover => hne hover.faults, fun hnot hnone => hnot ?_⟩
  have hfits : ∀ ep, (k.endpoints ep).Fits := fun ep => (hreached ep).fits
  obtain ⟨sys, hadm, heq⟩ | ⟨-, e, -, heq⟩ := syscallHandler_cases k t.frame t.cur t.entry t.now
  · rw [heq] at hnone
    have hfault := finish_eq_none hnone
    cases hcap : invokedCap k (k.tcbs.threads t.cur.toNat) sys t.frame with
    | none =>
      rw [hcap] at hfault
      cases sys <;> cases hfault
    | some cap =>
      rw [hcap] at hfault
      cases sys with
      | call => exact absurd hfault (sysCall_ne_fault k t.cur cap t.frame.a1)
      | replyRecv => exact absurd hfault (sysReplyRecv_ne_fault hfits t.cur)
      | send =>
        by_cases hallowed : SendAllowed cap t.frame.a1
        · refine ⟨cap, ⟨hadm, hcap⟩, hallowed, UInt32.not_le.mp fun hcaps => ?_⟩
          obtain ⟨e, k', -, hdone⟩ := sysSend_done hallowed hcaps
          rw [dispatch, hdone] at hfault
          cases hfault
        · rw [dispatch, sysSend_ret hallowed] at hfault
          cases hfault
      | yield => cases hfault
      | «seal» => cases hfault
      | invoke => cases hfault
  · rw [heq] at hnone
    cases hnone

/-- Every endpoint holds a message of three words. -/
def mailKernel : Kernel :=
  { readyKernel with
    endpoints := fun _ => (Run.exec EpHistory.step (EpHistory.start readyKernel.tcbs)
      [.send 0 { IpcMsg.zero with length := 3, words := fun i => UInt64.ofNat i }]).ep }

theorem mailKernel_reached (ep : UInt64) : (mailKernel.endpoints ep).Reached := ⟨_, _, rfl⟩

/-- Thread 1 receives the message, and its copy loop ends with the message. -/
theorem ipc_in_bounds_stored_message :
    (∀ ep, (mailKernel.endpoints ep).Reached) ∧
      (syscallHandler mailKernel (readyTrap 1 1).frame 1 0 0).map (fun r =>
        (r.1, (r.2.2.tcbs.threads 1).ipcBuffer.length, (r.2.2.tcbs.threads 1).ipcBuffer.words 2)) =
        some (.ok, 3, 2) ∧
      syscallHandler mailKernel (readyTrap 1 1).frame 1 0 0 ≠ none := by
  have hnot : ¬ OverrunsCaps mailKernel (readyTrap 1 1) := by
    rintro ⟨cap, -, -, hcaps⟩
    exact absurd hcaps (by decide)
  exact ⟨mailKernel_reached, by decide +kernel, (ipc_in_bounds_iff mailKernel_reached).mpr hnot⟩

/-- Every thread's buffer announces four capabilities. -/
def fullBufferKernel : Kernel :=
  { readyKernel with
    tcbs :=
      { threads := fun _ =>
          { Tcb.zero with
            state := .runnable, cspace := some .root, ipcBuffer := { IpcMsg.zero with caps := 4 } }
        count := 128 } }

/-- The fourth capability pointer is written past the end of the stack message. -/
theorem ipc_send_overruns :
    (readyTrap 0 2).IsIpc ∧ (∀ ep, (fullBufferKernel.endpoints ep).Reached) ∧
      ¬ syscallHandler fullBufferKernel (readyTrap 0 2).frame 0 0 0 ≠ none := by
  have hinv : (readyTrap 0 2).Invokes fullBufferKernel .send (endpointCap plainBoot 1) :=
    Trap.Invokes.of_checks (by decide) (by decide) (by decide +kernel) (by decide +kernel)
  have hover : OverrunsCaps fullBufferKernel (readyTrap 0 2) :=
    ⟨endpointCap plainBoot 1, hinv, ⟨rfl, by decide⟩, by decide⟩
  exact ⟨readySend.2, fun ep => ⟨readyKernel.tcbs, [], rfl⟩, not_not.mpr hover.faults⟩

end Moonlight
