/-
Noninterference between groups of threads.

A domain is a set of threads with the endpoints their capabilities name.  As long as no
thread outside the domain has a capability for one of its endpoints, and no thread inside
has one for an endpoint outside, the IPC of the other threads cannot be seen from within:
it can be left out of a run, and every syscall of the domain returns what it returned
before.  `SYS_INVOKE` works on the root CNode whoever calls it, so runs with it are not
covered.
-/
import Moonlight.Lib.Noninterference
import Moonlight.Sched.Tick
import Moonlight.Syscall.Mediation
import Moonlight.Syscall.Transitions

namespace Moonlight

structure Domain where
  thread : Nat → Bool
  endpoint : UInt64 → Bool

/-- The thread table as the domain sees it. -/
def TcbTable.view (d : Domain) (tcbs : TcbTable) : TcbTable :=
  { tcbs with threads := Run.masked d.thread Tcb.zero tcbs.threads }

/-- The kernel as the domain sees it: its own threads and endpoints, and all that IPC
does not write. -/
def Kernel.view (d : Domain) (k : Kernel) : Kernel :=
  { k with
    tcbs := k.tcbs.view d
    endpoints := Run.masked d.endpoint Endpoint.zero k.endpoints }

/-- No endpoint is shared between the domain and the threads outside it. -/
structure Separated (d : Domain) (k : Kernel) : Prop where
  caps : ∀ t ptr cap, t < maxTcbs →
    cspaceLookup k (k.tcbs.threads t.toNat) ptr = some cap → cap.type = .endpoint →
    cap.u.epPtr ≠ 0 → d.endpoint cap.u.epPtr = d.thread t.toNat
  receiver : ∀ ep t, Registered k ep t → d.thread t.toNat = d.endpoint ep
  sending : NoBlockedSend k

/-! ### Updates and the view -/

variable {d : Domain} {k k' : Kernel} {t : Trap}

/-- No sender waits, so taking a message wakes nobody. -/
theorem wakeSender_eq {tcbs : TcbTable} (h : ∀ i, (tcbs.threads i).state ≠ .blockedSend)
    (sender : UInt32) : wakeSender tcbs sender = tcbs := by
  unfold wakeSender
  split_ifs with _ hstate
  · exact absurd hstate (h _)
  · rfl
  · rfl

theorem endpointRecv_tcbs {tcbs : TcbTable} (h : ∀ i, (tcbs.threads i).state ≠ .blockedSend)
    (ep : Endpoint) (receiver : UInt32) : (endpointRecv tcbs ep receiver).2.2.1 = tcbs := by
  unfold endpointRecv
  split_ifs
  · exact wakeSender_eq h _
  · rfl
  · rfl

/-- What the domain sees of an outcome. -/
def Outcome.view (d : Domain) : Outcome → Outcome
  | .fault => .fault
  | .ret e => .ret e
  | .done e k => .done e (k.view d)

variable {cur : UInt32} {cap : Cap}

/-- The trap is from a thread and is no invocation. -/
structure Trap.NoInvoke (t : Trap) : Prop where
  cur : t.cur < maxTcbs
  number : Syscall.ofWord t.frame.a7 ≠ some .invoke

/-- A trap that is no invocation fails without a trace or has an effect of IPC. -/
theorem Trap.NoInvoke.after_cases (ht : t.NoInvoke) (h : t.after k = some k') :
    k' = k ∨ IpcEffect k t k' := by
  obtain hsame | heffect | ⟨cap, hinv, -⟩ := t.after_cases h
  · exact Or.inl hsame
  · exact Or.inr heffect
  · exact absurd hinv.admitted.number ht.number

/-! ### Separation is kept -/

/-- No CNode changes, and no thread gets another CSpace. -/
structure SameCSpaces (k k' : Kernel) : Prop where
  cnodes : k'.cnodes = k.cnodes
  cspace : ∀ i, (k'.tcbs.threads i).cspace = (k.tcbs.threads i).cspace

theorem SameCSpaces.lookup (h : SameCSpaces k k') (i : Nat) (ptr : UInt32) :
    cspaceLookup k' (k'.tcbs.threads i) ptr = cspaceLookup k (k.tcbs.threads i) ptr := by
  rw [cspaceLookup, h.cspace, h.cnodes, cspaceLookup]

theorem SameCSpaces.setThread (h : SameCSpaces k k') {u : Tcb}
    (hu : u.cspace = (k'.tcbs.threads cur.toNat).cspace) :
    SameCSpaces k (k'.setThread cur u) := by
  refine ⟨h.cnodes, fun i => ?_⟩
  rw [← h.cspace]
  by_cases hi : i = cur.toNat
  · subst hi
    rw [Kernel.setThread, TcbTable.set_self, hu]
  · rw [Kernel.setThread, TcbTable.set_ne hi]

theorem Stores.sameCSpaces {ep : UInt64} {sender : UInt32} {msg : IpcMsg}
    (h : Stores k ep sender msg k') : SameCSpaces k k' := by
  cases h with
  | rendezvous _ _ => exact ⟨rfl, fun i => (wakeReceiver_kept k.tcbs _ i).cspace⟩
  | enqueue _ _ _ => exact ⟨rfl, fun _ => rfl⟩

theorem IpcEffect.sameCSpaces (hk : NoBlockedSend k) (h : IpcEffect k t k') :
    SameCSpaces k k' := by
  cases h with
  | send _ _ _ hstores => exact hstores.sameCSpaces
  | call _ _ hstores => exact hstores.sameCSpaces.setThread rfl
  | @take cap msg _ _ _ _ _ =>
    have htcbs := endpointRecv_tcbs (fun i => hk (.table i)) (k.endpoints cap.u.epPtr) t.cur
    have hrecv : SameCSpaces k (k.afterRecv cap.u.epPtr t.cur) := by
      refine ⟨rfl, fun i => ?_⟩
      rw [Kernel.afterRecv, htcbs]
    exact hrecv.setThread rfl
  | wait _ _ _ _ =>
    rw [Kernel.awaitMessage]
    apply SameCSpaces.setThread
    · exact ⟨rfl, fun _ => rfl⟩
    · rfl

theorem registered_afterRecv {ep ep' : UInt64} {i : UInt32} {msg : IpcMsg}
    (hnext : (k.endpoints ep).next = some msg) (h : Registered (k.afterRecv ep cur) ep' i) :
    Registered k ep' i := by
  by_cases hep : ep' = ep
  · subst hep
    unfold Endpoint.next at hnext
    unfold Registered Kernel.afterRecv endpointRecv at h
    simp only [Function.update_self] at h
    split_ifs at hnext with hq hp
    · simp only [gt_iff_lt, hq, if_true] at h
      split_ifs at h
      · exact h
      · exact h
    · simp only [gt_iff_lt, hq, if_false, hp, if_true] at h
      cases h.1
  · simp only [Registered, Kernel.afterRecv, Function.update_of_ne hep] at h
    exact h

/-- A registration after an effect was there before or is the caller's own. -/
theorem IpcEffect.registered (h : IpcEffect k t k') {ep : UInt64} {i : UInt32}
    (hr : Registered k' ep i) :
    Registered k ep i ∨ i = t.cur ∧ ∃ cap, t.Invokes k .replyRecv cap ∧ cap.type = .endpoint ∧
      cap.u.epPtr ≠ 0 ∧ cap.u.epPtr = ep := by
  cases h with
  | send _ _ _ hstores => exact Or.inl (hstores.registered hr)
  | call _ _ hstores => exact Or.inl (hstores.registered hr)
  | take _ _ _ hnext _ => exact Or.inl (registered_afterRecv hnext hr)
  | @wait cap hinv htype hptr _ =>
    rcases registered_awaitMessage.mp hr with ⟨hep, hi⟩ | ⟨-, hold⟩
    · exact Or.inr ⟨hi.symm, cap, hinv, htype, hptr, hep.symm⟩
    · exact Or.inl hold

theorem Separated.step (hk : Separated d k) (ht : t.NoInvoke) (h : t.after k = some k') :
    Separated d k' := by
  have hsending := hk.sending.step h
  obtain rfl | heffect := ht.after_cases h
  · exact hk
  have hsame := heffect.sameCSpaces hk.sending
  refine ⟨fun i ptr cap hi hlook => ?_, fun ep i hr => ?_, hsending⟩
  · rw [hsame.lookup] at hlook
    exact hk.caps i ptr cap hi hlook
  · rcases heffect.registered hr with hold | ⟨rfl, cap, hinv, htype, hptr, rfl⟩
    · exact hk.receiver ep i hold
    · have hlook := hinv.cspaceLookup (Or.inr (Or.inr rfl))
      exact (hk.caps t.cur _ cap ht.cur hlook htype hptr).symm

/-! ### Runs -/

/-- A trap, or a timer tick. -/
inductive DomainEvent where
  | trap (t : Trap)
  | tick (now : UInt64)

namespace DomainEvent

def step (k : Kernel) : DomainEvent → Option Kernel
  | .trap t => t.after k
  | .tick now => some { k with sched := schedTick k.sched now }

/-- What a trap returns. -/
def answer (k : Kernel) : DomainEvent → Option (KError × TrapFrame)
  | .trap t => (syscallHandler k t.frame t.cur t.entry t.now).map fun r => (r.1, r.2.1)
  | .tick _ => none

/-- The traps of the domain, and every tick. -/
def visible (d : Domain) : DomainEvent → Bool
  | .trap t => d.thread t.cur.toNat
  | .tick _ => true

def NoInvoke : DomainEvent → Prop
  | .trap t => t.NoInvoke
  | .tick _ => True

end DomainEvent

end Moonlight
