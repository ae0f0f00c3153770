/-
Failed IPC syscalls.

Every error of the three IPC cases is found before the endpoint or a thread is written,
except one: the WCET check comes after the switch.  A message that has been stored or
taken by then stays so, and the caller is told that the call failed.
-/
import Moonlight.Syscall.Mediation

namespace Moonlight

/-- The state an IPC syscall works on is as before. -/
structure IpcUnchanged (k k' : Kernel) : Prop where
  endpoints : k'.endpoints = k.endpoints
  tcbs : k'.tcbs = k.tcbs
  heapTcbs : k'.heapTcbs = k.heapTcbs

/-- An IPC syscall that returns an error has changed nothing. -/
def FailsClean (k : Kernel) (t : Trap) : Prop :=
  ∀ sys e f' k', Syscall.ofWord t.frame.a7 = some sys → sys.IsIpc →
    syscallHandler k t.frame t.cur t.entry t.now = some (e, f', k') → e ≠ .ok → IpcUnchanged k k'

/-- A `SYS_REPLY_RECV` that takes a message or starts to wait. -/
def AcceptedRecv (k : Kernel) (t : Trap) : Prop :=
  ∃ cap, t.Invokes k .replyRecv cap ∧ cap.type = .endpoint ∧ cap.u.epPtr ≠ 0 ∧
    ∀ msg, (k.endpoints cap.u.epPtr).next = some msg → msg.length ≤ ipcMsgMax

/-- The trap passes every check before the WCET check. -/
def Commits (k : Kernel) (t : Trap) : Prop :=
  (∃ cap, SendsThrough k t cap) ∨ AcceptedCall k t ∨ AcceptedRecv k t

variable {k k' : Kernel} {t : Trap}

/-! ### Every effect shows -/

theorem IpcEffect.number (h : IpcEffect k t k') :
    ∃ sys, Syscall.ofWord t.frame.a7 = some sys ∧ sys.IsIpc := by
  cases h with
  | send hinv _ _ _ => exact ⟨.send, hinv.admitted.number, Or.inr (Or.inl rfl)⟩
  | call hinv _ _ => exact ⟨.call, hinv.admitted.number, Or.inl rfl⟩
  | take hinv _ _ _ _ => exact ⟨.replyRecv, hinv.admitted.number, Or.inr (Or.inr rfl)⟩
  | wait hinv _ _ _ => exact ⟨.replyRecv, hinv.admitted.number, Or.inr (Or.inr rfl)⟩

theorem IpcEffect.commits (h : IpcEffect k t k') : Commits k t := by
  cases h with
  | @send cap _ hinv hallowed hcaps hstores =>
    exact Or.inl ⟨cap, hinv, hallowed, hcaps, hstores.accepts⟩
  | @call cap _ hinv hallowed hstores =>
    exact Or.inr (Or.inl ⟨cap, hinv, hallowed, hstores.accepts⟩)
  | @take cap msg hinv htype hep hnext hlen =>
    refine Or.inr (Or.inr ⟨cap, hinv, htype, hep, fun msg' hmsg' => ?_⟩)
    rw [hnext] at hmsg'
    cases hmsg'
    exact hlen
  | @wait cap hinv htype hep hnext =>
    refine Or.inr (Or.inr ⟨cap, hinv, htype, hep, fun msg hmsg => ?_⟩)
    rw [hnext] at hmsg
    cases hmsg

theorem AcceptedCall.effect (h : AcceptedCall k t) : ∃ k', t.after k = some k' ∧ IpcEffect k t k' := by
  obtain ⟨cap, hinv, hallowed, hacc⟩ := h
  obtain ⟨k₂, hdone, hstores⟩ := hacc.sysCall hallowed
  exact ⟨_, hinv.after hdone, .call hinv hallowed hstores⟩

theorem SendsThrough.effect {cap : Cap} (h : SendsThrough k t cap) :
    ∃ k', t.after k = some k' ∧ IpcEffect k t k' := by
  obtain ⟨k₂, hdone, hstores⟩ := h.accepts.sysSend h.allowed h.caps
  exact ⟨_, h.invokes.after hdone, .send h.invokes h.allowed h.caps hstores⟩

theorem AcceptedRecv.effect (h : AcceptedRecv k t) : ∃ k', t.after k = some k' ∧ IpcEffect k t k' := by
  obtain ⟨cap, hinv, htype, hep, hfits⟩ := h
  cases hnext : (k.endpoints cap.u.epPtr).next with
  | none =>
    exact ⟨_, hinv.after (sysReplyRecv_waits htype hep t.cur hnext), .wait hinv htype hep hnext⟩
  | some msg =>
    have hlen := hfits msg hnext
    exact ⟨_, hinv.after (sysReplyRecv_takes htype hep t.cur hnext hlen),
      .take hinv htype hep hnext hlen⟩

theorem Commits.effect (h : Commits k t) : ∃ k', t.after k = some k' ∧ IpcEffect k t k' := by
  rcases h with ⟨cap, h⟩ | h | h
  · exact h.effect
  · exact h.effect
  · exact h.effect

/-- A receiver that starts to wait was runnable; every other effect writes the
endpoint. -/
theorem IpcEffect.not_unchanged (h : IpcEffect k t k') : ¬ IpcUnchanged k k' := by
  intro hsame
  cases h with
  | send _ _ _ hstores => exact hstores.endpoints_ne hsame.endpoints
  | call _ _ hstores => exact hstores.endpoints_ne hsame.endpoints
  | take _ _ _ hnext _ => exact afterRecv_endpoints_ne hnext t.cur hsame.endpoints
  | @wait cap hinv _ _ _ =>
    have hrun := hinv.runnable (by decide)
    rw [tcbIsRunnable, ← hsame.tcbs, awaitMessage_self] at hrun
    cases hrun

/-! ### The check after the switch -/

/-- A failing IPC syscall changes nothing if and only if it is not one that passes
every check of its case and then exceeds the WCET. -/
theorem failed_ipc_clean_iff (k : Kernel) (t : Trap) :
    FailsClean k t ↔ ¬ (Commits k t ∧ wcetCheck t.entry t.now = false) := by
  constructor
  · intro hclean hlate
    obtain ⟨hcommits, hwcet⟩ := hlate
    obtain ⟨k', hafter, heffect⟩ := hcommits.effect
    obtain ⟨⟨e, f', k''⟩, hret, rfl⟩ := Option.map_eq_some_iff.mp hafter
    obtain ⟨sys, hnumber, hsys⟩ := heffect.number
    have hne : e ≠ .ok := by
      obtain ⟨hne, -⟩ | ⟨hiff, -⟩ := t.returns_effect hnumber hsys hret
      · exact hne
      · rw [Ne, hiff, hwcet]
        decide
    exact heffect.not_unchanged (hclean sys e f' k'' hnumber hsys hret hne)
  · intro hnot sys e f' k' hnumber hsys hret hne
    obtain ⟨-, rfl⟩ | ⟨hiff, heffect⟩ := t.returns_effect hnumber hsys hret
    · exact ⟨rfl, rfl, rfl⟩
    · refine absurd ⟨heffect.commits, ?_⟩ hnot
      exact Bool.eq_false_iff.mpr fun hwcet => hne (hiff.mpr hwcet)

/-- Thread 0 sends one word, and 6000 ticks pass before the check. -/
def lateSend : Trap := { readyTrap 0 2 with now := 6000 }

theorem failed_ipc_stores_message : ¬ FailsClean readyKernel lateSend := by
  have hinv : lateSend.Invokes readyKernel .send (endpointCap plainBoot 1) :=
    Trap.Invokes.of_checks (by decide) (by decide) (by decide +kernel) (by decide +kernel)
  have hsend : SendsThrough readyKernel lateSend (endpointCap plainBoot 1) :=
    { invokes := hinv, allowed := ⟨rfl, by decide⟩, caps := by decide
      accepts := { ptr := by decide, fits := ⟨by decide, by decide⟩, room := Or.inr (by decide) } }
  obtain ⟨k', hafter, heffect⟩ := hsend.effect
  obtain ⟨⟨e, f', k''⟩, hret, rfl⟩ := Option.map_eq_some_iff.mp hafter
  have hnumber : Syscall.ofWord lateSend.frame.a7 = some .send := by decide
  have hsys : Syscall.send.IsIpc := Or.inr (Or.inl rfl)
  intro hclean
  refine heffect.not_unchanged (hclean .send e f' k'' hnumber hsys hret ?_)
  obtain ⟨hne, -⟩ | ⟨hiff, -⟩ := lateSend.returns_effect hnumber hsys hret
  · exact hne
  · rw [Ne, hiff]
    decide

end Moonlight
