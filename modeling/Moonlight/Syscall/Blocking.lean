/-
Blocked threads and the endpoints that can wake them.

A thread that waits has its state in its TCB and its registration in an endpoint.
`endpoint_send` wakes only the registered receiver of the endpoint it is called
on.  `SYS_CALL` blocks its caller without any registration, and a receive that
finds no message takes the registration of whoever waited there before.
-/
import Moonlight.Lib.Run
import Moonlight.Syscall.Ipc

namespace Moonlight

def Tcb.Blocked (t : Tcb) : Prop := t.state = .blockedRecv ∨ t.state = .blockedReply

instance (t : Tcb) : Decidable t.Blocked := inferInstanceAs (Decidable (_ ∨ _))

/-- The thread is the one a message to this endpoint wakes. -/
def Registered (k : Kernel) (ep : UInt64) (t : UInt32) : Prop :=
  (k.endpoints ep).hasReceiver = true ∧ (k.endpoints ep).receiverTcb = t

/-- Every blocked thread is registered somewhere. -/
def NoneForgotten (k : Kernel) : Prop :=
  ∀ t, t < maxTcbs → (k.tcbs.threads t.toNat).Blocked → ∃ ep, Registered k ep t

/-- A state to start from: no thread waits and no endpoint holds anything. -/
structure Quiet (k : Kernel) : Prop where
  threads : ∀ t, t < maxTcbs → ¬ (k.tcbs.threads t.toNat).Blocked
  endpoints : ∀ ep, (k.endpoints ep).Idle

/-- What the waiting threads keep: each waits for a message on one endpoint. -/
structure Waiting (k : Kernel) : Prop where
  wellFormed : ∀ ep, (k.endpoints ep).WellFormed
  inRange : ∀ {ep t}, Registered k ep t → t < maxTcbs
  blocked : ∀ {ep t}, Registered k ep t → (k.tcbs.threads t.toNat).state = .blockedRecv
  unique : ∀ {ep ep' t}, Registered k ep t → Registered k ep' t → ep = ep'
  noneForgotten : NoneForgotten k

theorem Quiet.waiting {k : Kernel} (h : Quiet k) : Waiting k := by
  have hnone : ∀ {ep t}, ¬ Registered k ep t := by
    rintro ep t ⟨hr, -⟩
    rw [(h.endpoints ep).noReceiver] at hr
    cases hr
  exact
    { wellFormed := fun ep => (h.endpoints ep).wellFormed
      inRange := fun hr => absurd hr hnone
      blocked := fun hr => absurd hr hnone
      unique := fun hr => absurd hr hnone
      noneForgotten := fun t ht hb => absurd hb (h.threads t ht) }

theorem Waiting.not_registered {k : Kernel} (h : Waiting k) {t : UInt32}
    (ht : tcbIsRunnable (k.tcbs.threads t.toNat) = true) (ep : UInt64) : ¬ Registered k ep t := by
  intro hr
  have hblocked := h.blocked hr
  simp only [tcbIsRunnable, decide_eq_true_eq] at ht
  rw [ht] at hblocked
  cases hblocked

/-! ### Storing a message -/

section Step

variable {k k' : Kernel} {ep : UInt64} {t : UInt32} {msg : IpcMsg}

theorem registered_rendezvous {ep' : UInt64} :
    Registered (k.rendezvous ep msg) ep' t ↔ ep' ≠ ep ∧ Registered k ep' t := by
  by_cases h : ep' = ep
  · subst h
    simp [Registered, Kernel.rendezvous]
  · simp [Registered, Kernel.rendezvous, h]

theorem registered_enqueue {sender : UInt32} {ep' : UInt64} :
    Registered (k.enqueue ep sender msg) ep' t ↔ Registered k ep' t := by
  by_cases h : ep' = ep
  · subst h
    simp [Registered, Kernel.enqueue]
  · simp [Registered, Kernel.enqueue, h]

theorem Stores.registered {sender : UInt32} (h : Stores k ep sender msg k') {ep' : UInt64}
    (hr : Registered k' ep' t) : Registered k ep' t := by
  cases h with
  | rendezvous _ _ => exact (registered_rendezvous.mp hr).2
  | enqueue _ _ _ => exact registered_enqueue.mp hr

/-- A rendezvous makes the receiver runnable and touches no other thread. -/
theorem rendezvous_threads (hw : Waiting k) (hrecv : Registered k ep t) (msg : IpcMsg) :
    ((k.rendezvous ep msg).tcbs.threads t.toNat).state = .runnable ∧
      ∀ u, u ≠ t → (k.rendezvous ep msg).tcbs.threads u.toNat = k.tcbs.threads u.toNat := by
  have hstate := hw.blocked hrecv
  have hwake : (tcbWakeFromIpc (k.tcbs.threads t.toNat)).2.state = .runnable := by
    simp [tcbWakeFromIpc, hstate]
  simp only [Kernel.rendezvous, wakeReceiver, hrecv.2, hw.inRange hrecv, if_true]
  refine ⟨?_, fun u hu => TcbTable.set_ne ?_ _ _⟩
  · rw [TcbTable.set_self]
    exact hwake
  · exact fun heq => hu (UInt32.toNat_inj.mp heq)

theorem Waiting.rendezvous (hw : Waiting k) (hr : (k.endpoints ep).hasReceiver = true)
    (msg : IpcMsg) : Waiting (k.rendezvous ep msg) := by
  obtain ⟨r, hrecv⟩ : ∃ r, Registered k ep r := ⟨_, hr, rfl⟩
  obtain ⟨hwoken, hothers⟩ := rendezvous_threads hw hrecv msg
  -- No endpoint but `ep` wakes the receiver, so the other registrations are not about it.
  have hne : ∀ {ep' t}, ep' ≠ ep → Registered k ep' t → t ≠ r := by
    rintro ep' t hep' hreg rfl
    exact hep' (hw.unique hreg hrecv)
  refine { wellFormed := fun ep' => ?_, inRange := fun hreg => ?_, blocked := fun hreg => ?_,
           unique := fun hreg hreg' => ?_, noneForgotten := fun t ht hb => ?_ }
  · by_cases h : ep' = ep
    · subst h
      have hwf := hw.wellFormed ep'
      simp only [Kernel.rendezvous, Function.update_self]
      exact { head_lt := hwf.head_lt, len_le := hwf.len_le, tail_eq := hwf.tail_eq,
              receiver := fun hf => by cases hf }
    · simp only [Kernel.rendezvous, Function.update_of_ne h]
      exact hw.wellFormed ep'
  · exact hw.inRange (registered_rendezvous.mp hreg).2
  · obtain ⟨hep', hreg⟩ := registered_rendezvous.mp hreg
    rw [hothers _ (hne hep' hreg)]
    exact hw.blocked hreg
  · exact hw.unique (registered_rendezvous.mp hreg).2 (registered_rendezvous.mp hreg').2
  · have htr : t ≠ r := by
      rintro rfl
      rcases hb with hb | hb
      · rw [hwoken] at hb
        cases hb
      · rw [hwoken] at hb
        cases hb
    rw [hothers t htr] at hb
    obtain ⟨ep', hreg⟩ := hw.noneForgotten t ht hb
    refine ⟨ep', registered_rendezvous.mpr ⟨?_, hreg⟩⟩
    rintro rfl
    exact htr (hreg.2.symm.trans hrecv.2)

/-- Steps that register and wake nobody who waits for a message. -/
theorem Waiting.transport (hw : Waiting k) (hwf : ∀ ep, (k'.endpoints ep).WellFormed)
    (hreg : ∀ ep t, Registered k' ep t ↔ Registered k ep t)
    (hstate : ∀ j, (k'.tcbs.threads j).state = (k.tcbs.threads j).state ∨
      (k.tcbs.threads j).state = .blockedSend ∧ (k'.tcbs.threads j).state = .runnable) :
    Waiting k' := by
  refine { wellFormed := hwf, inRange := fun h => hw.inRange ((hreg _ _).mp h),
           blocked := fun h => ?_,
           unique := fun h h' => hw.unique ((hreg _ _).mp h) ((hreg _ _).mp h'),
           noneForgotten := fun t ht hb => ?_ }
  · have hold := hw.blocked ((hreg _ _).mp h)
    rcases hstate _ with hsame | ⟨hsend, -⟩
    · rw [hsame, hold]
    · rw [hold] at hsend
      cases hsend
  · have hold : (k.tcbs.threads t.toNat).Blocked := by
      rcases hstate t.toNat with hsame | ⟨-, hrun⟩
      · rw [Tcb.Blocked, hsame] at hb
        exact hb
      · rw [Tcb.Blocked, hrun] at hb
        rcases hb with hb | hb <;> cases hb
    obtain ⟨ep, h⟩ := hw.noneForgotten t ht hold
    exact ⟨ep, (hreg ep t).mpr h⟩

theorem Waiting.enqueue (hw : Waiting k) (hfits : MsgFits msg)
    (hr : (k.endpoints ep).hasReceiver = false) (hq : (k.endpoints ep).qLen < 16)
    (sender : UInt32) : Waiting (k.enqueue ep sender msg) := by
  refine hw.transport (fun ep' => ?_) (fun _ _ => registered_enqueue) fun j => Or.inl rfl
  by_cases h : ep' = ep
  · subst h
    rcases endpointSend_cases k.tcbs (k.endpoints ep') sender msg with
      ⟨hnot, -⟩ | ⟨-, hr', -⟩ | ⟨-, -, hfull, -⟩ | ⟨-, -, -, heq⟩
    · exact absurd hfits hnot
    · rw [hr] at hr'
      cases hr'
    · exact absurd hfull (UInt8.not_le.mpr hq)
    · simp only [Kernel.enqueue, Function.update_self]
      exact endpointSend_wellFormed (hw.wellFormed ep') heq
  · simp only [Kernel.enqueue, Function.update_of_ne h]
    exact hw.wellFormed ep'

theorem Waiting.stores {sender : UInt32} (hw : Waiting k) (h : Stores k ep sender msg k') :
    Waiting k' := by
  cases h with
  | rendezvous _ hr => exact hw.rendezvous hr msg
  | enqueue hacc hr hq => exact hw.enqueue hacc.fits hr hq sender

/-! ### Receiving -/

/-- Taking a message leaves the registration and the ring shape of the endpoint. -/
theorem endpointRecv_registration (tcbs : TcbTable) {e : Endpoint} (hwf : e.WellFormed)
    (hnext : e.next = some msg) (receiver : UInt32) :
    (endpointRecv tcbs e receiver).2.2.2.hasReceiver = e.hasReceiver ∧
      (endpointRecv tcbs e receiver).2.2.2.receiverTcb = e.receiverTcb ∧
      ∃ sender, (endpointRecv tcbs e receiver).2.2.1 = wakeSender tcbs sender ∨
        (endpointRecv tcbs e receiver).2.2.1 = tcbs := by
  unfold Endpoint.next at hnext
  unfold endpointRecv
  split_ifs at hnext with hq hp
  · simp only [gt_iff_lt, hq, if_true]
    refine ⟨?_, ?_, _, Or.inl rfl⟩
    · split_ifs <;> rfl
    · split_ifs <;> rfl
  · simp only [gt_iff_lt, hq, if_false, hp, if_true]
    have hnone : e.hasReceiver = false := by
      cases hr : e.hasReceiver with
      | false => rfl
      | true =>
        have hpending := (hwf.receiver hr).2
        rw [hp] at hpending
        cases hpending
    exact ⟨hnone.symm, trivial, 0, Or.inr trivial⟩

theorem wakeSender_state (tcbs : TcbTable) (sender : UInt32) (j : Nat) :
    ((wakeSender tcbs sender).threads j).state = (tcbs.threads j).state ∨
      (tcbs.threads j).state = .blockedSend ∧
        ((wakeSender tcbs sender).threads j).state = .runnable := by
  unfold wakeSender
  split_ifs with hlt hstate
  · by_cases hj : j = sender.toNat
    · subst hj
      rw [TcbTable.set_self]
      exact Or.inr ⟨hstate, by simp [tcbResume, hstate]⟩
    · rw [TcbTable.set_ne hj]
      exact Or.inl rfl
  · exact Or.inl rfl
  · exact Or.inl rfl

theorem deliver_state (k : Kernel) (cur : UInt32) (msg : IpcMsg) (j : Nat) :
    ((k.deliver cur msg).tcbs.threads j).state = (k.tcbs.threads j).state := by
  simp only [Kernel.deliver, Kernel.setThread]
  by_cases hj : j = cur.toNat
  · subst hj
    rw [TcbTable.set_self]
  · rw [TcbTable.set_ne hj]

theorem Waiting.take (hw : Waiting k) (hnext : (k.endpoints ep).next = some msg) (cur : UInt32) :
    Waiting ((k.afterRecv ep cur).deliver cur msg) := by
  obtain ⟨hhas, hwho, sender, htcbs⟩ :=
    endpointRecv_registration k.tcbs (hw.wellFormed ep) hnext cur
  refine hw.transport (fun ep' => ?_) (fun ep' t => ?_) fun j => ?_
  · by_cases h : ep' = ep
    · subst h
      simp only [Kernel.deliver, Kernel.setThread, Kernel.afterRecv, Function.update_self]
      exact endpointRecv_wellFormed (hw.wellFormed ep') rfl
    · simp only [Kernel.deliver, Kernel.setThread, Kernel.afterRecv, Function.update_of_ne h]
      exact hw.wellFormed ep'
  · by_cases h : ep' = ep
    · subst h
      simp only [Registered, Kernel.deliver, Kernel.setThread, Kernel.afterRecv,
        Function.update_self, hhas, hwho]
    · simp only [Registered, Kernel.deliver, Kernel.setThread, Kernel.afterRecv,
        Function.update_of_ne h]
  · rw [deliver_state]
    rcases htcbs with htcbs | htcbs
    · simp only [Kernel.afterRecv, htcbs]
      exact wakeSender_state k.tcbs sender j
    · simp only [Kernel.afterRecv, htcbs]
      exact Or.inl trivial

theorem registered_awaitMessage {cur : UInt32} {ep' : UInt64} :
    Registered (k.awaitMessage ep cur) ep' t ↔
      ep' = ep ∧ cur = t ∨ ep' ≠ ep ∧ Registered k ep' t := by
  by_cases h : ep' = ep
  · subst h
    simp [Registered, Kernel.awaitMessage, Kernel.setThread]
  · simp [Registered, Kernel.awaitMessage, Kernel.setThread, h]

theorem awaitMessage_self (k : Kernel) (ep : UInt64) (cur : UInt32) :
    ((k.awaitMessage ep cur).tcbs.threads cur.toNat).state = .blockedRecv := by
  simp only [Kernel.awaitMessage, Kernel.setThread, TcbTable.set_self]

theorem awaitMessage_ne {cur u : UInt32} (h : u ≠ cur) (k : Kernel) (ep : UInt64) :
    (k.awaitMessage ep cur).tcbs.threads u.toNat = k.tcbs.threads u.toNat := by
  simp only [Kernel.awaitMessage, Kernel.setThread]
  exact TcbTable.set_ne (fun heq => h (UInt32.toNat_inj.mp heq)) _ _

theorem Waiting.wait {cur : UInt32} (hw : Waiting k) (hcur : cur < maxTcbs)
    (hrun : tcbIsRunnable (k.tcbs.threads cur.toNat) = true)
    (hnext : (k.endpoints ep).next = none) (hr : (k.endpoints ep).hasReceiver = false) :
    Waiting (k.awaitMessage ep cur) := by
  refine { wellFormed := fun ep' => ?_, inRange := fun hreg => ?_, blocked := fun hreg => ?_,
           unique := fun hreg hreg' => ?_, noneForgotten := fun t ht hb => ?_ }
  · by_cases h : ep' = ep
    · subst h
      simp only [Kernel.awaitMessage, Kernel.setThread, Function.update_self]
      have hwf := hw.wellFormed ep'
      unfold Endpoint.next at hnext
      split_ifs at hnext with hq hp
      have hempty : (k.endpoints ep').qLen = 0 := UInt8.le_zero_iff.mp (UInt8.not_lt.mp hq)
      exact { head_lt := hwf.head_lt, len_le := hwf.len_le, tail_eq := hwf.tail_eq,
              receiver := fun _ => ⟨hempty, by simpa using hp⟩ }
    · simp only [Kernel.awaitMessage, Kernel.setThread, Function.update_of_ne h]
      exact hw.wellFormed ep'
  · rcases registered_awaitMessage.mp hreg with ⟨-, rfl⟩ | ⟨-, hreg⟩
    · exact hcur
    · exact hw.inRange hreg
  · rcases registered_awaitMessage.mp hreg with ⟨-, rfl⟩ | ⟨-, hold⟩
    · exact awaitMessage_self k ep cur
    · rw [awaitMessage_ne]
      · exact hw.blocked hold
      · rintro rfl
        exact hw.not_registered hrun _ hold
  · rcases registered_awaitMessage.mp hreg with ⟨rfl, rfl⟩ | ⟨hne, hold⟩
    · rcases registered_awaitMessage.mp hreg' with ⟨rfl, -⟩ | ⟨-, hold'⟩
      · rfl
      · exact absurd hold' (hw.not_registered hrun _)
    · rcases registered_awaitMessage.mp hreg' with ⟨rfl, rfl⟩ | ⟨-, hold'⟩
      · exact absurd hold (hw.not_registered hrun _)
      · exact hw.unique hold hold'
  · by_cases htc : t = cur
    · exact ⟨ep, registered_awaitMessage.mpr (Or.inl ⟨rfl, htc.symm⟩)⟩
    · rw [awaitMessage_ne htc] at hb
      obtain ⟨ep', hreg⟩ := hw.noneForgotten t ht hb
      refine ⟨ep', registered_awaitMessage.mpr (Or.inr ⟨?_, hreg⟩)⟩
      rintro rfl
      rw [hreg.1] at hr
      cases hr

end Step

/-! ### The two ways to forget a thread -/

/-- A `SYS_CALL` whose message is stored. -/
def AcceptedCall (k : Kernel) (t : Trap) : Prop :=
  ∃ cap, t.Invokes k .call cap ∧ CallAllowed cap t.frame.a1 ∧
    Accepts k cap.u.epPtr (calledMsg (k.ipcBuffer t.cur) (ipcLength t.frame.a1))

/-- A `SYS_REPLY_RECV` without a message on an endpoint where a thread waits. -/
def DisplacesReceiver (k : Kernel) (t : Trap) : Prop :=
  ∃ cap, t.Invokes k .replyRecv cap ∧ cap.type = .endpoint ∧ cap.u.epPtr ≠ 0 ∧
    (k.endpoints cap.u.epPtr).next = none ∧ (k.endpoints cap.u.epPtr).hasReceiver = true

variable {k k' : Kernel} {t : Trap}

theorem Trap.Invokes.runnable {sys : Syscall} {cap : Cap} (h : t.Invokes k sys cap)
    (hsys : sys ≠ .yield) : tcbIsRunnable (k.tcbs.threads t.cur.toNat) = true :=
  h.admitted.runnable.resolve_right hsys

/-- Any other IPC trap keeps every waiting thread registered. -/
theorem Waiting.step (hw : Waiting k) (ht : t.IsIpc)
    (hok : ¬ AcceptedCall k t ∧ ¬ DisplacesReceiver k t) (h : t.after k = some k') : Waiting k' := by
  obtain rfl | heffect := Trap.after_effect ht h
  · exact hw
  cases heffect with
  | send _ _ _ hstores => exact hw.stores hstores
  | @call cap _ hinv hallowed hstores =>
    exact absurd ⟨cap, hinv, hallowed, hstores.accepts⟩ hok.1
  | take _ _ _ hnext _ => exact hw.take hnext t.cur
  | @wait cap hinv htype hep hnext =>
    refine hw.wait ht.cur (hinv.runnable (by decide)) hnext ?_
    cases hr : (k.endpoints cap.u.epPtr).hasReceiver with
    | false => rfl
    | true => exact absurd ⟨cap, hinv, htype, hep, hnext, hr⟩ hok.2

/-- The caller of an accepted call waits for a reply that no endpoint can bring. -/
theorem AcceptedCall.forgets (h : AcceptedCall k t) (hw : Waiting k) (ht : t.IsIpc) :
    ∃ k', t.after k = some k' ∧ ¬ NoneForgotten k' := by
  obtain ⟨cap, hinv, hallowed, hacc⟩ := h
  obtain ⟨k₂, heq, hstores⟩ := hacc.sysCall hallowed
  refine ⟨k₂.awaitReply t.cur, hinv.after heq, fun hnone => ?_⟩
  have hblocked : ((k₂.awaitReply t.cur).tcbs.threads t.cur.toNat).Blocked := by
    simp only [Kernel.awaitReply, Kernel.setThread, TcbTable.set_self]
    exact Or.inr rfl
  obtain ⟨ep, hreg⟩ := hnone t.cur ht.cur hblocked
  exact hw.not_registered (hinv.runnable (by decide)) ep (hstores.registered hreg)

/-- The thread that waited first stays blocked without a registration. -/
theorem DisplacesReceiver.forgets (h : DisplacesReceiver k t) (hw : Waiting k) :
    ∃ k', t.after k = some k' ∧ ¬ NoneForgotten k' := by
  obtain ⟨cap, hinv, htype, hep, hnext, hr⟩ := h
  obtain ⟨r, hrecv⟩ : ∃ r, Registered k cap.u.epPtr r := ⟨_, hr, rfl⟩
  have hne : r ≠ t.cur := by
    rintro rfl
    exact hw.not_registered (hinv.runnable (by decide)) _ hrecv
  refine ⟨_, hinv.after (sysReplyRecv_waits htype hep t.cur hnext), fun hnone => ?_⟩
  have hblocked : ((k.awaitMessage cap.u.epPtr t.cur).tcbs.threads r.toNat).Blocked := by
    rw [awaitMessage_ne hne]
    exact Or.inl (hw.blocked hrecv)
  obtain ⟨ep, hreg⟩ := hnone r (hw.inRange hrecv) hblocked
  rcases registered_awaitMessage.mp hreg with ⟨-, hcur⟩ | ⟨hother, hreg⟩
  · exact hne hcur.symm
  · exact hother (hw.unique hreg hrecv)

/-- Along a run of IPC traps from a quiet state, no blocked thread is forgotten
exactly as long as no `SYS_CALL` is accepted and no receive takes the place of a
waiting receiver. -/
theorem ipc_forgets_no_thread_iff {k : Kernel} (hk : Quiet k) (ts : List { t : Trap // t.IsIpc }) :
    (∀ us, us <+: ts → ∀ k', Run.execM (fun k t => t.1.after k) k us = some k' →
      NoneForgotten k') ↔
    Run.Along (fun k t => t.1.after k)
      (fun k t => ¬ AcceptedCall k t.1 ∧ ¬ DisplacesReceiver k t.1) k ts := by
  refine Run.execM_forall_prefix_iff Waiting (fun k hw => hw.noneForgotten) ?_ ?_
    hk.waiting ts
  · intro k t k' hw hok h
    exact hw.step t.2 hok h
  · intro k t hw hnot
    by_cases hcall : AcceptedCall k t.1
    · exact hcall.forgets hw t.2
    · by_cases hdisp : DisplacesReceiver k t.1
      · exact hdisp.forgets hw
      · exact absurd ⟨hcall, hdisp⟩ hnot

/-- Every thread runnable on boot's root CNode, every endpoint idle. -/
def readyKernel : Kernel :=
  { bootKernel plainBoot with
    tcbs := { threads := fun _ => { Tcb.zero with state := .runnable, cspace := some .root }
              count := 128 }
    endpoints := fun _ => Endpoint.zero }

theorem readyKernel_quiet : Quiet readyKernel :=
  { threads := fun _ _ hblocked => by rcases hblocked with h | h <;> cases h
    endpoints := fun _ =>
      { wellFormed := Endpoint.zero_wellFormed, empty := rfl, noMessage := rfl, noReceiver := rfl } }

/-- The thread invokes slot 11 of the root CNode with a one-word message. -/
def readyTrap (cur : UInt32) (number : UInt64) : Trap :=
  { frame := { a0 := 11, a1 := 1, a2 := 0, a3 := 0, a7 := number }, cur := cur, entry := 0, now := 0 }

def readyRecv : { t : Trap // t.IsIpc } :=
  ⟨readyTrap 1 1, by decide, .replyRecv, by decide, Or.inr (Or.inr rfl)⟩

def readySend : { t : Trap // t.IsIpc } :=
  ⟨readyTrap 0 2, by decide, .send, by decide, Or.inr (Or.inl rfl)⟩

def readyCall : { t : Trap // t.IsIpc } := ⟨readyTrap 0 0, by decide, .call, by decide, Or.inl rfl⟩

theorem not_acceptedCall {sys : Syscall} (h : Syscall.ofWord t.frame.a7 = some sys)
    (hsys : sys ≠ .call) (k : Kernel) : ¬ AcceptedCall k t := by
  rintro ⟨cap, hinv, -⟩
  exact hsys (Option.some.inj (h.symm.trans hinv.admitted.number))

theorem not_displacesReceiver {sys : Syscall} (h : Syscall.ofWord t.frame.a7 = some sys)
    (hsys : sys ≠ .replyRecv) (k : Kernel) : ¬ DisplacesReceiver k t := by
  rintro ⟨cap, hinv, -⟩
  exact hsys (Option.some.inj (h.symm.trans hinv.admitted.number))

/-- A receive and the send that wakes it. -/
theorem ipc_forgets_no_thread_exchange :
    Quiet readyKernel ∧
      ∀ us, us <+: [readyRecv, readySend] →
        ∀ k', Run.execM (fun k t => t.1.after k) readyKernel us = some k' → NoneForgotten k' := by
  refine ⟨readyKernel_quiet, (ipc_forgets_no_thread_iff readyKernel_quiet _).mpr ?_⟩
  have hrecv : Syscall.ofWord readyRecv.1.frame.a7 = some .replyRecv := by decide
  have hsend : Syscall.ofWord readySend.1.frame.a7 = some .send := by decide
  refine ⟨⟨not_acceptedCall hrecv (by decide) _, ?_⟩, fun k' _ => ⟨⟨?_, ?_⟩, fun _ _ => trivial⟩⟩
  · rintro ⟨cap, -, -, -, -, hr⟩
    cases hr
  · exact not_acceptedCall hsend (by decide) k'
  · exact not_displacesReceiver hsend (by decide) k'

/-- One `SYS_CALL` on an idle endpoint and its caller waits for ever. -/
theorem ipc_forgets_caller :
    Quiet readyKernel ∧
      ¬ ∀ us, us <+: [readyCall] →
        ∀ k', Run.execM (fun k t => t.1.after k) readyKernel us = some k' → NoneForgotten k' := by
  have hinv : (readyTrap 0 0).Invokes readyKernel .call (endpointCap plainBoot 1) :=
    Trap.Invokes.of_checks (by decide) (by decide) (by decide +kernel) (by decide +kernel)
  have hcall : AcceptedCall readyKernel (readyTrap 0 0) := by
    refine ⟨endpointCap plainBoot 1, hinv, ⟨⟨rfl, by decide⟩, by decide⟩, ?_⟩
    exact { ptr := by decide, fits := ⟨by decide, by decide⟩, room := Or.inr (by decide) }
  refine ⟨readyKernel_quiet, fun h => ?_⟩
  obtain ⟨k', hafter, hforgot⟩ := hcall.forgets readyKernel_quiet.waiting readyCall.2
  exact hforgot (h [readyCall] (List.prefix_refl _) k' (Run.execM_cons hafter []))

end Moonlight
