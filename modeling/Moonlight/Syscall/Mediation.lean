/-
The rights behind an IPC syscall.

`SYS_CALL` checks READ and WRITE on its endpoint capability.  `SYS_SEND` and
`SYS_REPLY_RECV` only check the type, and no case asks for GRANT when the message
carries capabilities.
-/
import Moonlight.Syscall.Blocking

namespace Moonlight

/-- The message an IPC syscall hands to `endpoint_send`. -/
def Trap.message (k : Kernel) (t : Trap) : Syscall → Option IpcMsg
  | .send => some (sentMsg (k.ipcBuffer t.cur) (ipcLength t.frame.a1))
  | .call => some (calledMsg (k.ipcBuffer t.cur) (ipcLength t.frame.a1))
  | _ => none

/-- What an IPC syscall needs of the capability it goes through. -/
structure Authorizes (k : Kernel) (t : Trap) (sys : Syscall) (cap : Cap) : Prop where
  valid : cap.isValid ≠ 0
  tagged : cap.hwCap.tag ≠ 0
  type : cap.type = .endpoint
  read : sys = .replyRecv ∨ sys = .call → capHasRight cap capRightsRead = true
  write : sys = .send ∨ sys = .call → capHasRight cap capRightsWrite = true
  grant : ∀ msg, t.message k sys = some msg → 0 < msg.caps → capHasRight cap capRightsGrant = true

/-- An IPC syscall that changes an endpoint or returns `ERR_OK` goes through a
capability of the caller's CSpace that authorizes it. -/
def Mediated (k : Kernel) (t : Trap) : Prop :=
  ∀ sys e f' k', Syscall.ofWord t.frame.a7 = some sys → sys.IsIpc →
    syscallHandler k t.frame t.cur t.entry t.now = some (e, f', k') →
    k'.endpoints ≠ k.endpoints ∨ e = .ok →
    ∃ cap, cspaceLookup k (k.tcbs.threads t.cur.toNat) t.frame.a0.toUInt32 = some cap ∧
      Authorizes k t sys cap

/-- A `SYS_SEND` that stores its message through this capability. -/
structure SendsThrough (k : Kernel) (t : Trap) (cap : Cap) : Prop where
  invokes : t.Invokes k .send cap
  allowed : SendAllowed cap t.frame.a1
  caps : (k.ipcBuffer t.cur).caps ≤ ipcCapsMax
  accepts : Accepts k cap.u.epPtr (sentMsg (k.ipcBuffer t.cur) (ipcLength t.frame.a1))

/-- A `SYS_REPLY_RECV` that receives or registers through this capability.  A thread
that is registered already only shows it by the result. -/
structure ReceivesThrough (k : Kernel) (t : Trap) (cap : Cap) : Prop where
  invokes : t.Invokes k .replyRecv cap
  type : cap.type = .endpoint
  ptr : cap.u.epPtr ≠ 0
  fits : ∀ msg, (k.endpoints cap.u.epPtr).next = some msg → msg.length ≤ ipcMsgMax
  visible : (k.endpoints cap.u.epPtr).next = none → Registered k cap.u.epPtr t.cur →
    wcetCheck t.entry t.now = true

variable {k k' : Kernel} {t : Trap} {cap : Cap}

/-! ### The invoked capability -/

theorem invokedCap_of_ne {sys : Syscall} (h : sys ≠ .invoke) (k : Kernel) (u : Tcb)
    (f : TrapFrame) : invokedCap k u sys f = cspaceLookup k u f.a0.toUInt32 := by
  unfold invokedCap
  cases cspaceLookup k u f.a0.toUInt32 with
  | none => simp [h]
  | some cap => rfl

theorem Trap.Invokes.cspaceLookup {sys : Syscall} (h : t.Invokes k sys cap) (hsys : sys.IsIpc) :
    cspaceLookup k (k.tcbs.threads t.cur.toNat) t.frame.a0.toUInt32 = some cap := by
  have hne : sys ≠ .invoke := by rcases hsys with rfl | rfl | rfl <;> decide
  rw [← invokedCap_of_ne hne]
  exact h.cap

theorem Trap.Invokes.valid {sys : Syscall} (h : t.Invokes k sys cap) (hsys : sys.IsIpc) :
    cap.isValid ≠ 0 ∧ cap.hwCap.tag ≠ 0 := by
  have hlook := h.cspaceLookup hsys
  obtain ⟨cn, -, hcn⟩ := Option.bind_eq_some_iff.mp hlook
  obtain ⟨-, -, -, -, hvalid, htag⟩ := cnodeLookup_some hcn
  exact ⟨hvalid, htag⟩

/-! ### Effects on endpoints -/

theorem Stores.endpoints_ne {ep : UInt64} {sender : UInt32} {msg : IpcMsg}
    (h : Stores k ep sender msg k') : k'.endpoints ≠ k.endpoints := by
  intro heq
  have hep := congrFun heq ep
  cases h with
  | rendezvous _ hr =>
    have hhas := congrArg Endpoint.hasReceiver hep
    simp only [Kernel.rendezvous, Function.update_self] at hhas
    rw [hr] at hhas
    cases hhas
  | enqueue _ _ hq =>
    have hlen := congrArg (fun e => e.qLen.toNat) hep
    simp only [Kernel.enqueue, Function.update_self] at hlen
    rw [Endpoint.toNat_succ hq] at hlen
    omega

theorem afterRecv_endpoints_ne {ep : UInt64} {msg : IpcMsg}
    (hnext : (k.endpoints ep).next = some msg) (cur : UInt32) :
    (k.afterRecv ep cur).endpoints ≠ k.endpoints := by
  intro heq
  have hep := congrFun heq ep
  simp only [Kernel.afterRecv, Function.update_self] at hep
  rcases endpointRecv_cases k.tcbs (k.endpoints ep) cur with
    ⟨hq, ep', hrecv, -, -, -, -, hlen, -⟩ | ⟨hz, hp, hrecv⟩ | ⟨hz, hp, -⟩
  · rw [hrecv] at hep
    have hsame := congrArg (fun e => e.qLen.toNat) hep
    simp only at hsame
    rw [hlen, Endpoint.toNat_pred hq] at hsame
    have hpos : 0 < (k.endpoints ep).qLen.toNat := UInt8.lt_iff_toNat_lt.mp hq
    omega
  · rw [hrecv] at hep
    have hsame := congrArg Endpoint.pending hep
    simp only at hsame
    rw [hp] at hsame
    cases hsame
  · simp [Endpoint.next, hz, hp] at hnext

/-- Waiting changes the endpoint unless the thread was registered there. -/
theorem awaitMessage_endpoints (k : Kernel) (ep : UInt64) (cur : UInt32) :
    (k.awaitMessage ep cur).endpoints = k.endpoints ↔ Registered k ep cur := by
  have hendpoints : (k.awaitMessage ep cur).endpoints = Function.update k.endpoints ep
      { k.endpoints ep with hasReceiver := true, receiverTcb := cur } := rfl
  rw [hendpoints, Function.update_eq_self_iff]
  constructor
  · intro heq
    exact ⟨by rw [← heq], by rw [← heq]⟩
  · rintro ⟨hhas, hwho⟩
    rw [← hhas, ← hwho]

theorem SendsThrough.effective (h : SendsThrough k t cap) :
    ∃ e f' k', syscallHandler k t.frame t.cur t.entry t.now = some (e, f', k') ∧
      k'.endpoints ≠ k.endpoints := by
  obtain ⟨k₂, hdone, hstores⟩ := h.accepts.sysSend h.allowed h.caps
  obtain ⟨e', f', hfin⟩ := finish_done k k₂ t.frame t.entry t.now .ok
  refine ⟨e', f', k₂, ?_, hstores.endpoints_ne⟩
  rw [h.invokes.handler, dispatch, hdone, hfin]

theorem ReceivesThrough.effective (h : ReceivesThrough k t cap) :
    ∃ e f' k', syscallHandler k t.frame t.cur t.entry t.now = some (e, f', k') ∧
      (k'.endpoints ≠ k.endpoints ∨ e = .ok) := by
  rw [h.invokes.handler, dispatch]
  cases hnext : (k.endpoints cap.u.epPtr).next with
  | some msg =>
    rw [sysReplyRecv_takes h.type h.ptr t.cur hnext (h.fits msg hnext)]
    obtain ⟨e', f', hfin⟩ := finish_done k ((k.afterRecv cap.u.epPtr t.cur).deliver t.cur msg)
      t.frame t.entry t.now .ok
    exact ⟨e', f', _, hfin, Or.inl (afterRecv_endpoints_ne hnext t.cur)⟩
  | none =>
    rw [sysReplyRecv_waits h.type h.ptr t.cur hnext]
    by_cases hreg : Registered k cap.u.epPtr t.cur
    · rw [finish, if_pos (h.visible hnext hreg)]
      exact ⟨.ok, _, _, rfl, Or.inr rfl⟩
    · obtain ⟨e', f', hfin⟩ := finish_done k (k.awaitMessage cap.u.epPtr t.cur) t.frame t.entry
        t.now .ok
      refine ⟨e', f', _, hfin, Or.inl fun heq => hreg ?_⟩
      exact (awaitMessage_endpoints k cap.u.epPtr t.cur).mp heq

/-! ### The rights that are checked -/

theorem capHasRight_of_and {r r' : UInt32} (h : capHasRight cap r = true) (hsub : r &&& r' = r') :
    capHasRight cap r' = true := by
  simp only [capHasRight, decide_eq_true_eq] at h ⊢
  rw [← hsub, ← UInt32.and_assoc, h]

theorem CallAllowed.authorizes (hinv : t.Invokes k .call cap) (h : CallAllowed cap t.frame.a1) :
    Authorizes k t .call cap := by
  obtain ⟨hvalid, htag⟩ := hinv.valid (Or.inl rfl)
  refine { valid := hvalid, tagged := htag, type := h.type,
           read := fun _ => capHasRight_of_and h.rights (by decide),
           write := fun _ => capHasRight_of_and h.rights (by decide), grant := ?_ }
  rintro msg hmsg hcaps
  cases hmsg
  exact absurd hcaps (show ¬ (0 : UInt32) < 0 by decide)

theorem SendsThrough.authorizes_iff (h : SendsThrough k t cap) :
    Authorizes k t .send cap ↔ capHasRight cap capRightsWrite = true ∧
      (0 < (k.ipcBuffer t.cur).caps → capHasRight cap capRightsGrant = true) := by
  obtain ⟨hvalid, htag⟩ := h.invokes.valid (Or.inr (Or.inl rfl))
  constructor
  · intro ha
    exact ⟨ha.write (Or.inl rfl),
      ha.grant (sentMsg (k.ipcBuffer t.cur) (ipcLength t.frame.a1)) rfl⟩
  · rintro ⟨hwrite, hgrant⟩
    refine { valid := hvalid, tagged := htag, type := h.allowed.type, read := ?_,
             write := fun _ => hwrite, grant := ?_ }
    · intro hsys
      rcases hsys with hsys | hsys <;> cases hsys
    · rintro msg hmsg
      cases hmsg
      exact hgrant

theorem ReceivesThrough.authorizes_iff (h : ReceivesThrough k t cap) :
    Authorizes k t .replyRecv cap ↔ capHasRight cap capRightsRead = true := by
  obtain ⟨hvalid, htag⟩ := h.invokes.valid (Or.inr (Or.inr rfl))
  constructor
  · intro ha
    exact ha.read (Or.inl rfl)
  · intro hread
    refine { valid := hvalid, tagged := htag, type := h.type, read := fun _ => hread,
             write := ?_, grant := ?_ }
    · intro hsys
      rcases hsys with hsys | hsys <;> cases hsys
    · intro msg hmsg
      cases hmsg

/-- An effective trap with the effect of a receive is a receive through its
capability. -/
theorem receivesThrough_of_wait {e : KError} (hinv : t.Invokes k .replyRecv cap)
    (htype : cap.type = .endpoint) (hep : cap.u.epPtr ≠ 0)
    (hnext : (k.endpoints cap.u.epPtr).next = none)
    (hwcet : e = .ok ↔ wcetCheck t.entry t.now = true)
    (heff : (k.awaitMessage cap.u.epPtr t.cur).endpoints ≠ k.endpoints ∨ e = .ok) :
    ReceivesThrough k t cap := by
  refine { invokes := hinv, type := htype, ptr := hep, fits := fun msg hmsg => ?_,
           visible := fun _ hreg => ?_ }
  · rw [hnext] at hmsg
    cases hmsg
  · rcases heff with hne | hok
    · exact absurd ((awaitMessage_endpoints k cap.u.epPtr t.cur).mpr hreg) hne
    · exact hwcet.mp hok

/-- Complete mediation holds of an IPC syscall exactly when a send that is stored has
WRITE, and GRANT for capabilities, and a receive that takes effect has READ. -/
theorem ipc_mediated_iff (k : Kernel) (t : Trap) :
    Mediated k t ↔
      (∀ cap, SendsThrough k t cap → capHasRight cap capRightsWrite = true ∧
        (0 < (k.ipcBuffer t.cur).caps → capHasRight cap capRightsGrant = true)) ∧
      ∀ cap, ReceivesThrough k t cap → capHasRight cap capRightsRead = true := by
  constructor
  · intro hmed
    refine ⟨fun cap h => ?_, fun cap h => ?_⟩
    · obtain ⟨e, f', k', hret, hne⟩ := h.effective
      obtain ⟨cap', hlook, ha⟩ := hmed .send e f' k' h.invokes.admitted.number
        (Or.inr (Or.inl rfl)) hret (Or.inl hne)
      rw [h.invokes.cspaceLookup (Or.inr (Or.inl rfl))] at hlook
      cases hlook
      exact h.authorizes_iff.mp ha
    · obtain ⟨e, f', k', hret, heff⟩ := h.effective
      obtain ⟨cap', hlook, ha⟩ := hmed .replyRecv e f' k' h.invokes.admitted.number
        (Or.inr (Or.inr rfl)) hret heff
      rw [h.invokes.cspaceLookup (Or.inr (Or.inr rfl))] at hlook
      cases hlook
      exact h.authorizes_iff.mp ha
  · rintro ⟨hsend, hrecv⟩ sys e f' k' hnumber hsys hret heff
    have huniq : ∀ {sys' cap}, t.Invokes k sys' cap → sys' = sys := fun hinv =>
      Option.some.inj (hinv.admitted.number.symm.trans hnumber)
    obtain ⟨hne, rfl⟩ | ⟨hwcet, heffect⟩ := t.returns_effect hnumber hsys hret
    · exact absurd rfl (heff.resolve_right hne)
    cases heffect with
    | @send cap _ hinv hallowed hcaps hstores =>
      obtain rfl := huniq hinv
      have hthrough : SendsThrough k t cap := ⟨hinv, hallowed, hcaps, hstores.accepts⟩
      exact ⟨cap, hinv.cspaceLookup hsys, hthrough.authorizes_iff.mpr (hsend cap hthrough)⟩
    | @call cap _ hinv hallowed _ =>
      obtain rfl := huniq hinv
      exact ⟨cap, hinv.cspaceLookup hsys, hallowed.authorizes hinv⟩
    | @take cap msg hinv htype hep hnext hlen =>
      obtain rfl := huniq hinv
      have hthrough : ReceivesThrough k t cap := by
        refine ⟨hinv, htype, hep, fun msg' hmsg' => ?_, fun hnone => ?_⟩
        · rw [hnext] at hmsg'
          cases hmsg'
          exact hlen
        · rw [hnext] at hnone
          cases hnone
      exact ⟨cap, hinv.cspaceLookup hsys, hthrough.authorizes_iff.mpr (hrecv cap hthrough)⟩
    | @wait cap hinv htype hep hnext =>
      obtain rfl := huniq hinv
      have hthrough := receivesThrough_of_wait hinv htype hep hnext hwcet heff
      exact ⟨cap, hinv.cspaceLookup hsys, hthrough.authorizes_iff.mpr (hrecv cap hthrough)⟩

/-- The endpoint capability of slot 11 reduced to READ. -/
def readOnlyKernel : Kernel :=
  readyKernel.setRoot
    (readyKernel.root.setSlot 11 { endpointCap plainBoot 1 with rights := capRightsRead })

/-- `SYS_SEND` through a capability without WRITE stores its message. -/
theorem ipc_send_unmediated : ¬ Mediated readOnlyKernel (readyTrap 0 2) := by
  intro hmed
  let cap : Cap := { endpointCap plainBoot 1 with rights := capRightsRead }
  have hinv : (readyTrap 0 2).Invokes readOnlyKernel .send cap :=
    Trap.Invokes.of_checks (by decide) (by decide) (by decide +kernel) (by decide +kernel)
  have hthrough : SendsThrough readOnlyKernel (readyTrap 0 2) cap :=
    { invokes := hinv, allowed := ⟨rfl, by decide⟩, caps := by decide
      accepts := { ptr := by decide, fits := ⟨by decide, by decide⟩, room := Or.inr (by decide) } }
  obtain ⟨e, f', k', hret, hne⟩ := hthrough.effective
  obtain ⟨cap', hlook, ha⟩ := hmed .send e f' k' hinv.admitted.number (Or.inr (Or.inl rfl)) hret
    (Or.inl hne)
  rw [hthrough.invokes.cspaceLookup (Or.inr (Or.inl rfl))] at hlook
  cases hlook
  exact absurd (hthrough.authorizes_iff.mp ha).1 (by decide)

end Moonlight
