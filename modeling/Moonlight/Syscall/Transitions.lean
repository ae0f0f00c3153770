/-
The states of threads.

Five places write a thread's state: the two blocking cases of the dispatcher, the
wake-up of a receiver in `endpoint_send`, that of a sender in `endpoint_recv`, and the
TCB invocations.  No code sets `TCB_BLOCKED_SEND`, so the fourth of them never acts, and
what is left is listed by `Transition`.
-/
import Moonlight.Syscall.Authority
import Moonlight.Syscall.Blocking

namespace Moonlight

/-- A thread: an entry of `g_tcbs.threads`, or a TCB of its own behind a pointer. -/
inductive ThreadRef where
  | table (i : Nat)
  | heap (ptr : UInt64)
  deriving DecidableEq, Repr

def Kernel.stateOf (k : Kernel) : ThreadRef → TcbState
  | .table i => (k.tcbs.threads i).state
  | .heap ptr => (k.heapTcbs ptr).state

/-- The thread a TCB capability designates. -/
def Kernel.designated (k : Kernel) (ptr : UInt64) : ThreadRef :=
  match k.threadAt ptr with
  | some i => .table i
  | none => .heap ptr

def NoBlockedSend (k : Kernel) : Prop := ∀ r, k.stateOf r ≠ .blockedSend

/-- The trap is an invocation of a TCB capability for this thread. -/
structure Trap.Targets (k : Kernel) (t : Trap) (op : InvokeOp) (r : ThreadRef) : Prop where
  intro ::
  cap : ∃ cap, t.Invokes k .invoke cap ∧ IsTcbCap cap ∧ k.designated cap.u.tcbPtr = r
  op : InvokeOp.ofWord (t.frame.a1 &&& 0xFF) = op

/-- What a trap can do to the state of a thread. -/
inductive Transition (k : Kernel) (t : Trap) (r : ThreadRef) : TcbState → TcbState → Prop
  | same {s : TcbState} : Transition k t r s s
  | call {cap : Cap} (hself : r = .table t.cur.toNat) (hinv : t.Invokes k .call cap)
      (hsend : (endpointSendAt k cap.u.epPtr t.cur
        (calledMsg (k.ipcBuffer t.cur) (ipcLength t.frame.a1))).1 = .ok) :
      Transition k t r .runnable .blockedReply
  | recv {cap : Cap} (hself : r = .table t.cur.toNat) (hinv : t.Invokes k .replyRecv cap)
      (hpending : (k.endpoints cap.u.epPtr).pending = false)
      (hqueue : (k.endpoints cap.u.epPtr).qLen = 0) : Transition k t r .runnable .blockedRecv
  | wake {sys : Syscall} {cap : Cap} {i : UInt32} {s : TcbState} (hself : r = .table i.toNat)
      (hsys : sys = .call ∨ sys = .send) (hinv : t.Invokes k sys cap)
      (hreceiver : Registered k cap.u.epPtr i) (hs : s = .blockedRecv ∨ s = .blockedReply) :
      Transition k t r s .runnable
  | resume {s : TcbState} (htarget : t.Targets k .tcbResume r)
      (hs : s = .inactive ∨ s = .blockedRecv ∨ s = .blockedReply) : Transition k t r s .runnable
  | suspend {s : TcbState} (htarget : t.Targets k .tcbSuspend r) : Transition k t r s .inactive
  | configure {s : TcbState} (htarget : t.Targets k .tcbConfigure r) :
      Transition k t r s .inactive

variable {k k' : Kernel} {t : Trap}

/-! ### What a trap can do -/

/-- A trap fails without a trace, has one of the effects of IPC, or is an invocation. -/
theorem Trap.after_cases (h : t.after k = some k') :
    k' = k ∨ IpcEffect k t k' ∨ ∃ cap, t.Invokes k .invoke cap ∧
      k' = (handleInvoke k cap (InvokeOp.ofWord (t.frame.a1 &&& 0xFF)) t.frame.a1 t.frame.a2
        t.frame.a3).2 := by
  obtain ⟨⟨e, f', k''⟩, hret, rfl⟩ := Option.map_eq_some_iff.mp h
  obtain ⟨sys, hadm, heq⟩ | ⟨-, e', -, heq⟩ := syscallHandler_cases k t.frame t.cur t.entry t.now
  swap
  · rw [heq] at hret
    cases hret
    exact Or.inl rfl
  by_cases hipc : sys.IsIpc
  · exact (t.returns_effect hadm.number hipc hret).imp And.right fun heff => Or.inl heff.2
  have hdone : ∀ {e k₁}, dispatch k t.frame t.cur sys
      (invokedCap k (k.tcbs.threads t.cur.toNat) sys t.frame) = .done e k₁ → k₁ = k'' := by
    intro e₁ k₁ hout
    obtain ⟨e₂, f₂, hfin⟩ := finish_done k k₁ t.frame t.entry t.now e₁
    rw [heq, hout, hfin] at hret
    cases hret
    rfl
  cases sys with
  | call => exact absurd (Or.inl rfl) hipc
  | send => exact absurd (Or.inr (Or.inl rfl)) hipc
  | replyRecv => exact absurd (Or.inr (Or.inr rfl)) hipc
  | yield => exact Or.inl (hdone rfl).symm
  | «seal» => exact Or.inl (hdone rfl).symm
  | invoke =>
    cases hcap : invokedCap k (k.tcbs.threads t.cur.toNat) .invoke t.frame with
    | none => exact absurd hcap (hadm.cap.resolve_left (by decide))
    | some cap =>
      refine Or.inr (Or.inr ⟨cap, ⟨hadm, hcap⟩, ?_⟩)
      rw [hcap] at hdone
      exact (hdone rfl).symm

/-! ### IPC -/

theorem wakeReceiver_state (tcbs : TcbTable) (recvr : UInt32) (j : Nat) :
    ((wakeReceiver tcbs recvr).threads j).state = (tcbs.threads j).state ∨
      j = recvr.toNat ∧ (tcbs.threads j).Blocked ∧
        ((wakeReceiver tcbs recvr).threads j).state = .runnable := by
  unfold wakeReceiver
  split_ifs with hlt
  · by_cases hj : j = recvr.toNat
    · subst hj
      rw [TcbTable.set_self, tcbWakeFromIpc]
      split_ifs with hstate
      · exact Or.inl rfl
      · rw [not_and_or, not_not, not_not] at hstate
        exact Or.inr ⟨rfl, hstate, rfl⟩
    · rw [TcbTable.set_ne hj]
      exact Or.inl rfl
  · exact Or.inl rfl

/-- A stored message wakes at most the registered receiver. -/
theorem Stores.stateOf {ep : UInt64} {sender : UInt32} {msg : IpcMsg}
    (h : Stores k ep sender msg k') (r : ThreadRef) :
    k'.stateOf r = k.stateOf r ∨
      ∃ i : UInt32, r = .table i.toNat ∧ Registered k ep i ∧
        (k.stateOf r = .blockedRecv ∨ k.stateOf r = .blockedReply) ∧
        k'.stateOf r = .runnable := by
  cases h with
  | enqueue _ _ _ => exact Or.inl rfl
  | rendezvous _ hreceiver =>
    cases r with
    | heap ptr => exact Or.inl rfl
    | table j =>
      obtain hsame | ⟨rfl, hblocked, hrun⟩ :=
        wakeReceiver_state k.tcbs (k.endpoints ep).receiverTcb j
      · exact Or.inl hsame
      · exact Or.inr ⟨_, rfl, ⟨hreceiver, rfl⟩, hblocked, hrun⟩

theorem Stores.transition {sender : UInt32} {msg : IpcMsg} {sys : Syscall} {cap : Cap}
    (h : Stores k cap.u.epPtr sender msg k') (hsys : sys = .call ∨ sys = .send)
    (hinv : t.Invokes k sys cap) (r : ThreadRef) :
    Transition k t r (k.stateOf r) (k'.stateOf r) := by
  obtain hsame | ⟨i, hr, hreg, hblocked, hrun⟩ := h.stateOf r
  · rw [hsame]
    exact .same
  · rw [hrun]
    exact .wake hr hsys hinv hreg hblocked

theorem Trap.Invokes.stateOf {sys : Syscall} {cap : Cap} (h : t.Invokes k sys cap)
    (hsys : sys ≠ .yield) : k.stateOf (.table t.cur.toNat) = .runnable :=
  of_decide_eq_true (h.runnable hsys)

theorem stateOf_setThread (k : Kernel) (i : UInt32) (u : Tcb) (r : ThreadRef) :
    (k.setThread i u).stateOf r = if r = .table i.toNat then u.state else k.stateOf r := by
  cases r with
  | heap ptr => rfl
  | table j =>
    by_cases hj : j = i.toNat
    · subst hj
      rw [if_pos rfl]
      show ((k.tcbs.set i.toNat u).threads i.toNat).state = _
      rw [TcbTable.set_self]
    · rw [if_neg (fun h => hj (ThreadRef.table.inj h))]
      show ((k.tcbs.set i.toNat u).threads j).state = _
      rw [TcbTable.set_ne hj]
      rfl

/-- Without a thread blocked in a send, taking a message wakes nobody. -/
theorem stateOf_take (hk : NoBlockedSend k) (ep : UInt64) (cur : UInt32) (msg : IpcMsg)
    (r : ThreadRef) : ((k.afterRecv ep cur).deliver cur msg).stateOf r = k.stateOf r := by
  cases r with
  | heap ptr => rfl
  | table j =>
    show (((k.afterRecv ep cur).deliver cur msg).tcbs.threads j).state = (k.tcbs.threads j).state
    rw [deliver_state, Kernel.afterRecv]
    rcases endpointRecv_cases k.tcbs (k.endpoints ep) cur with
      ⟨-, ep', hrecv, -⟩ | ⟨-, -, hrecv⟩ | ⟨-, -, hrecv⟩
    · rw [hrecv]
      obtain hstate | ⟨hsend, -⟩ := wakeSender_state k.tcbs
        ((k.endpoints ep).queue (k.endpoints ep).qHead.toNat) j
      · exact hstate
      · exact absurd hsend (hk (.table j))
    · rw [hrecv]
    · rw [hrecv]

theorem IpcEffect.transition (hk : NoBlockedSend k) (h : IpcEffect k t k') (r : ThreadRef) :
    Transition k t r (k.stateOf r) (k'.stateOf r) := by
  cases h with
  | send hinv _ _ hstores => exact hstores.transition (Or.inr rfl) hinv r
  | @call cap k₁ hinv hallowed hstores =>
    rw [Kernel.awaitReply, stateOf_setThread]
    by_cases hr : r = .table t.cur.toNat
    · rw [if_pos hr, hr, hinv.stateOf (by decide)]
      obtain ⟨k₂, hsend, -⟩ := hstores.accepts.stores t.cur
      exact .call rfl hinv (by rw [hsend])
    · rw [if_neg hr]
      exact hstores.transition (Or.inl rfl) hinv r
  | @take cap msg hinv htype hep hnext hlen =>
    rw [stateOf_take hk]
    exact .same
  | @wait cap hinv htype hep hnext =>
    rw [Kernel.awaitMessage, stateOf_setThread]
    by_cases hr : r = .table t.cur.toNat
    · rw [if_pos hr, hr, hinv.stateOf (by decide)]
      unfold Endpoint.next at hnext
      split_ifs at hnext with hq hp
      exact .recv rfl hinv (by simpa using hp) (UInt8.le_zero_iff.mp (UInt8.not_lt.mp hq))
    · rw [if_neg hr]
      exact .same

/-! ### Invocations -/

theorem stateOf_setTcbAt (k : Kernel) (ptr : UInt64) (u : Tcb) (r : ThreadRef) :
    (k.setTcbAt ptr u).stateOf r = if k.designated ptr = r then u.state else k.stateOf r := by
  unfold Kernel.setTcbAt Kernel.designated
  cases k.threadAt ptr with
  | some i =>
    cases r with
    | heap p => rfl
    | table j =>
      by_cases hj : j = i
      · subst hj
        simp [Kernel.stateOf]
      · have hne : ThreadRef.table i ≠ .table j := fun h => hj (ThreadRef.table.inj h).symm
        simp [Kernel.stateOf, hne, TcbTable.set_ne hj]
  | none =>
    cases r with
    | table j => rfl
    | heap p =>
      by_cases hp : p = ptr
      · subst hp
        simp [Kernel.stateOf]
      · have hne : ThreadRef.heap ptr ≠ .heap p := fun h => hp (ThreadRef.heap.inj h).symm
        simp [Kernel.stateOf, hne, Function.update_of_ne hp]

theorem stateOf_designated (k : Kernel) (ptr : UInt64) :
    k.stateOf (k.designated ptr) = (k.tcbAt ptr).state := by
  unfold Kernel.designated Kernel.tcbAt
  cases k.threadAt ptr with
  | some i => rfl
  | none => rfl

/-- What an invocation does to the TCBs. -/
inductive InvokesTcb (k : Kernel) (cap : Cap) : InvokeOp → Kernel → Prop
  | none {op : InvokeOp} {k' : Kernel} (hsame : k'.stateOf = k.stateOf) : InvokesTcb k cap op k'
  | resume (hcap : IsTcbCap cap) :
      InvokesTcb k cap .tcbResume (k.setTcbAt cap.u.tcbPtr (resumed (k.tcbAt cap.u.tcbPtr)))
  | suspend (hcap : IsTcbCap cap) :
      InvokesTcb k cap .tcbSuspend (k.setTcbAt cap.u.tcbPtr (tcbSuspend (k.tcbAt cap.u.tcbPtr)))
  | configure {vspaceRoot : UInt64} {asid partition : UInt32} (hcap : IsTcbCap cap) :
      InvokesTcb k cap .tcbConfigure (k.setTcbAt cap.u.tcbPtr
        (tcbConfigure (k.tcbAt cap.u.tcbPtr) .root vspaceRoot asid partition))

theorem handleInvoke_configure_tcb (k : Kernel) (cap : Cap) (arg1 arg2 arg3 : UInt64) :
    InvokesTcb k cap .tcbConfigure (handleInvoke k cap .tcbConfigure arg1 arg2 arg3).2 := by
  obtain ⟨v, hallowed, heq⟩ | ⟨-, heq⟩ := handleInvoke_configure_cases k cap arg1 arg2 arg3
  · rw [heq]
    exact .configure hallowed.1
  · rw [heq]
    exact .none rfl

theorem handleInvoke_tcb (k : Kernel) (cap : Cap) (op : InvokeOp) (arg1 arg2 arg3 : UInt64) :
    InvokesTcb k cap op (handleInvoke k cap op arg1 arg2 arg3).2 := by
  have hfailed : ∀ {op}, (handleInvoke k cap op arg1 arg2 arg3).2 = k →
      InvokesTcb k cap op (handleInvoke k cap op arg1 arg2 arg3).2 := by
    intro op heq
    rw [heq]
    exact .none rfl
  by_cases hvalid : capIsValid cap = true
  swap
  · exact hfailed (by rw [handleInvoke_of_invalid hvalid])
  cases op with
  | tcbConfigure => exact handleInvoke_configure_tcb k cap arg1 arg2 arg3
  | tcbResume =>
    by_cases hcap : IsTcbCap cap
    · rw [handleInvoke_resume hcap]
      exact .resume hcap
    · exact hfailed (handleInvoke_not_tcb hcap k (Or.inr (Or.inl rfl)) arg1 arg2 arg3)
  | tcbSuspend =>
    by_cases hcap : IsTcbCap cap
    · rw [handleInvoke_suspend hcap]
      exact .suspend hcap
    · exact hfailed (handleInvoke_not_tcb hcap k (Or.inr (Or.inr rfl)) arg1 arg2 arg3)
  | untypedRetype =>
    simp only [handleInvoke, hvalid, not_true_eq_false, if_false, invokeRetype]
    repeat' split
    all_goals exact .none rfl
  | cnodeCopy | cnodeMint | cnodeMove | cnodeDelete =>
    simp only [handleInvoke, hvalid, not_true_eq_false, if_false, invokeCnode]
    split
    all_goals exact .none rfl
  | vspaceMap | vspaceUnmap | frameMap =>
    simp only [handleInvoke, hvalid, not_true_eq_false, if_false, invokeVspaceMap,
      invokeVspaceUnmap]
    repeat' split
    all_goals exact .none rfl
  | schedBind =>
    simp only [handleInvoke, hvalid, not_true_eq_false, if_false, invokeSchedBind]
    exact .none rfl
  | other =>
    simp only [handleInvoke, hvalid, not_true_eq_false, if_false]
    exact .none rfl

theorem resumed_state (u : Tcb) :
    (resumed u).state = u.state ∨ (resumed u).state = .runnable ∧
      (u.state = .inactive ∨ u.state = .blockedRecv ∨ u.state = .blockedReply) := by
  by_cases hactive : u.state = .inactive ∨ u.state = .blockedRecv ∨ u.state = .blockedReply
  · refine Or.inr ⟨?_, hactive⟩
    rcases hactive with hs | hs | hs
    · simp [resumed, tcbResume, hs]
    · simp [resumed, tcbWakeFromIpc, hs]
    · simp [resumed, tcbWakeFromIpc, hs]
  · exact Or.inl (by rw [(resumed_eq_iff u).mpr hactive])

theorem InvokesTcb.transition {cap : Cap} {op : InvokeOp} (h : InvokesTcb k cap op k')
    (hinv : t.Invokes k .invoke cap) (hop : InvokeOp.ofWord (t.frame.a1 &&& 0xFF) = op)
    (r : ThreadRef) : Transition k t r (k.stateOf r) (k'.stateOf r) := by
  have htarget : IsTcbCap cap → k.designated cap.u.tcbPtr = r → t.Targets k op r :=
    fun hcap hr => ⟨⟨cap, hinv, hcap, hr⟩, hop⟩
  cases h with
  | none hsame =>
    rw [hsame]
    exact .same
  | resume hcap =>
    rw [stateOf_setTcbAt]
    by_cases hr : k.designated cap.u.tcbPtr = r
    · rw [if_pos hr]
      obtain hsame | ⟨hrun, hs⟩ := resumed_state (k.tcbAt cap.u.tcbPtr)
      · rw [hsame, ← stateOf_designated, hr]
        exact .same
      · rw [hrun]
        rw [← stateOf_designated, hr] at hs
        exact .resume (htarget hcap hr) hs
    · rw [if_neg hr]
      exact .same
  | suspend hcap =>
    rw [stateOf_setTcbAt]
    by_cases hr : k.designated cap.u.tcbPtr = r
    · rw [if_pos hr]
      exact .suspend (htarget hcap hr)
    · rw [if_neg hr]
      exact .same
  | configure hcap =>
    rw [stateOf_setTcbAt]
    by_cases hr : k.designated cap.u.tcbPtr = r
    · rw [if_pos hr]
      exact .configure (htarget hcap hr)
    · rw [if_neg hr]
      exact .same

/-! ### Runs -/

theorem Trap.transition (hk : NoBlockedSend k) (h : t.after k = some k') (r : ThreadRef) :
    Transition k t r (k.stateOf r) (k'.stateOf r) := by
  obtain rfl | heffect | ⟨cap, hinv, rfl⟩ := t.after_cases h
  · exact .same
  · exact heffect.transition hk r
  · exact (handleInvoke_tcb k cap _ _ _ _).transition hinv rfl r

theorem Transition.ne_blockedSend {r : ThreadRef} {s s' : TcbState} (h : Transition k t r s s')
    (hs : s ≠ .blockedSend) : s' ≠ .blockedSend := by
  cases h with
  | same => exact hs
  | _ => decide

/-- Only an invocation takes a thread out of suspension. -/
theorem Transition.inactive_of_ipc {r : ThreadRef} {s' : TcbState} {sys : Syscall}
    (h : Transition k t r .inactive s') (hnumber : Syscall.ofWord t.frame.a7 = some sys)
    (hsys : sys.IsIpc) : s' = .inactive := by
  cases h with
  | same => rfl
  | wake _ _ _ _ hs => rcases hs with hs | hs <;> cases hs
  | resume htarget _ =>
    obtain ⟨cap, hinv, -⟩ := htarget.cap
    obtain rfl := Option.some.inj (hinv.admitted.number.symm.trans hnumber)
    rcases hsys with hsys | hsys | hsys <;> cases hsys
  | suspend _ => rfl
  | configure _ => rfl

theorem NoBlockedSend.step (hk : NoBlockedSend k) (h : t.after k = some k') : NoBlockedSend k' :=
  fun r => (Trap.transition hk h r).ne_blockedSend (hk r)

theorem NoBlockedSend.run (hk : NoBlockedSend k) {ts : List Trap}
    (h : Run.execM (fun k t => t.after k) k ts = some k') : NoBlockedSend k' :=
  Run.Steps.invariant (fun _ _ _ hstep hs => hs.step hstep) (Run.steps_execM_iff.mpr h) hk

/-- In every state of every run that starts without a thread blocked in a send there is
none, each thread's state changes as listed or not at all, and an IPC syscall leaves a
suspended thread suspended. -/
theorem thread_states_transition (hk : NoBlockedSend k) {ts : List Trap} {k₁ k₂ : Kernel}
    (hrun : Run.execM (fun k t => t.after k) k ts = some k₁) (hstep : t.after k₁ = some k₂) :
    NoBlockedSend k₁ ∧ NoBlockedSend k₂ ∧
      ∀ r, Transition k₁ t r (k₁.stateOf r) (k₂.stateOf r) ∧
        ∀ sys, Syscall.ofWord t.frame.a7 = some sys → sys.IsIpc → k₁.stateOf r = .inactive →
          k₂.stateOf r = .inactive := by
  have hk₁ := hk.run hrun
  refine ⟨hk₁, hk₁.step hstep, fun r => ?_⟩
  have htrans := Trap.transition hk₁ hstep r
  refine ⟨htrans, fun sys hnumber hsys hinactive => ?_⟩
  rw [hinactive] at htrans
  exact htrans.inactive_of_ipc hnumber hsys

theorem bootKernel_heapTcbs (ptr : UInt64) :
    ((bootKernel plainBoot).heapTcbs ptr).state = .inactive := rfl

theorem readyKernel_noBlockedSend : NoBlockedSend readyKernel := by
  intro r hr
  cases r with
  | table i => cases hr
  | heap ptr =>
    have hstate : readyKernel.stateOf (.heap ptr) = .inactive := bootKernel_heapTcbs ptr
    rw [hstate] at hr
    cases hr

/-- Thread 1 waits on an endpoint and is woken by the send of thread 0. -/
theorem thread_states_transition_wake :
    ∃ k₁ k₂, Run.execM (fun k t => t.after k) readyKernel [readyTrap 1 1] = some k₁ ∧
      (readyTrap 0 2).after k₁ = some k₂ ∧ k₂.stateOf (.table 1) = .runnable ∧
      Transition k₁ (readyTrap 0 2) (.table 1) (k₁.stateOf (.table 1)) (k₂.stateOf (.table 1)) := by
  have hboth : (((readyTrap 1 1).after readyKernel).bind (readyTrap 0 2).after).map
      (fun k => k.stateOf (.table 1)) = some .runnable := by decide +kernel
  obtain ⟨k₂, hbind, hrunnable⟩ := Option.map_eq_some_iff.mp hboth
  obtain ⟨k₁, hfirst, hsecond⟩ := Option.bind_eq_some_iff.mp hbind
  have hrun : Run.execM (fun k t => t.after k) readyKernel [readyTrap 1 1] = some k₁ :=
    Run.execM_cons hfirst []
  have hstates := thread_states_transition readyKernel_noBlockedSend hrun hsecond
  exact ⟨k₁, k₂, hrun, hsecond, hrunnable, (hstates.2.2 (.table 1)).1⟩

end Moonlight
