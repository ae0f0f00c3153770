/-
Messages of threads that are gone.

`process_destroy` takes the entries of the thread out of every queue.  A message that was
handed to a waiting receiver and not yet picked up is in no queue: it stands in
`pending_msg`, where the sender is not recorded, and it survives.
-/
import Moonlight.Process.Bookkeeping
import Moonlight.Process.Traces

namespace Moonlight

/-! ### Runs -/

/-- The kernel, the traces of its endpoints and the number of calls so far. -/
structure TracedKernel where
  kernel : Kernel
  traces : Fin maxEndpoints → Trace
  clock : Nat

inductive SpeakCall where
  | send (i : Fin maxEndpoints) (sender : UInt32) (msg : IpcMsg)
  | recv (i : Fin maxEndpoints) (receiver : UInt32)
  | create (args : ProcessArgs)
  | destroy (tcbId : UInt32)

namespace TracedKernel

def endpoint (s : TracedKernel) (env : BootEnv) (i : Fin maxEndpoints) : Endpoint :=
  s.kernel.endpoints (gEndpoint env i)

/-- Endpoint `i` and the thread table are replaced. -/
def setEndpoint (s : TracedKernel) (env : BootEnv) (i : Fin maxEndpoints) (tcbs : TcbTable)
    (ep : Endpoint) (tr : Trace) : TracedKernel :=
  { kernel :=
      { s.kernel with
        tcbs := tcbs, endpoints := Function.update s.kernel.endpoints (gEndpoint env i) ep }
    traces := Function.update s.traces i tr
    clock := s.clock + 1 }

/-- The traces `process_destroy` leaves, behind its checks. -/
def destroyTraces (s : TracedKernel) (env : BootEnv) (tcbId : UInt32) : Fin maxEndpoints → Trace :=
  if tcbId ≥ maxTcbs then s.traces
  else if tcbIsFree (s.kernel.tcbs.threads tcbId.toNat) then s.traces
  else fun i => (s.traces i).cleanup (s.endpoint env i) tcbId

def speak (fuel : Nat) (env : BootEnv) (s : TracedKernel) : SpeakCall → Option TracedKernel
  | .send i sender msg =>
      let r := endpointSend s.kernel.tcbs (s.endpoint env i) sender msg
      some (s.setEndpoint env i r.2.1 r.2.2
        ((s.traces i).send (s.endpoint env i) ⟨sender, msg, s.clock⟩))
  | .recv i receiver =>
      let r := endpointRecv s.kernel.tcbs (s.endpoint env i) receiver
      some (s.setEndpoint env i r.2.2.1 r.2.2.2 ((s.traces i).recv (s.endpoint env i)).2)
  | .create args =>
      some { s with kernel := (s.kernel.create env args).2.2, clock := s.clock + 1 }
  | .destroy tcbId =>
      ((processDestroy fuel env s.kernel tcbId).map Prod.snd).map fun k' =>
        { kernel := k', traces := s.destroyTraces env tcbId, clock := s.clock + 1 }

end TracedKernel

/-- The call returns and leaves `s'`. -/
def SpeakStep (env : BootEnv) (s : TracedKernel) (c : SpeakCall) (s' : TracedKernel) : Prop :=
  Fuel.Yields (fun fuel => s.speak fuel env c) s'

section
variable {env : BootEnv} {s s' : TracedKernel}

theorem TracedKernel.setEndpoint_self (s : TracedKernel) (env : BootEnv) (i : Fin maxEndpoints)
    (tcbs : TcbTable) (ep : Endpoint) (tr : Trace) :
    (s.setEndpoint env i tcbs ep tr).endpoint env i = ep ∧
      (s.setEndpoint env i tcbs ep tr).traces i = tr :=
  ⟨Function.update_self .., Function.update_self ..⟩

theorem TracedKernel.setEndpoint_ne {i j : Fin maxEndpoints} (h : j ≠ i) (s : TracedKernel)
    (env : BootEnv) (tcbs : TcbTable) (ep : Endpoint) (tr : Trace) :
    (s.setEndpoint env i tcbs ep tr).endpoint env j = s.endpoint env j ∧
      (s.setEndpoint env i tcbs ep tr).traces j = s.traces j :=
  ⟨Function.update_of_ne (gEndpoint_ne h) .., Function.update_of_ne h ..⟩

/-- A destruction that takes effect cleans up every endpoint; another one does nothing. -/
theorem speakStep_destroy_cases {tcbId : UInt32} (h : SpeakStep env s (.destroy tcbId) s') :
    s'.clock = s.clock + 1 ∧
    ((¬ Occupied s.kernel tcbId ∧
      ∀ i, s'.endpoint env i = s.endpoint env i ∧ s'.traces i = s.traces i) ∨
    (Occupied s.kernel tcbId ∧
      ∀ i, s'.endpoint env i = (s.endpoint env i).cleanup tcbId ∧
        s'.traces i = (s.traces i).cleanup (s.endpoint env i) tcbId)) := by
  have hstep : ProcessStep env s.kernel (.destroy tcbId) s'.kernel :=
    Fuel.Yields.of_map TracedKernel.kernel (fun _ => rfl) h
  obtain ⟨n, hn⟩ := h
  obtain ⟨k', -, heq⟩ := Option.map_eq_some_iff.mp (hn n (Nat.le_refl n))
  have htraces : s'.traces = s.destroyTraces env tcbId := by rw [← heq]
  refine ⟨by rw [← heq], ?_⟩
  by_cases hocc : Occupied s.kernel tcbId
  · obtain ⟨mdb, -, hkernel⟩ := (destroyStep_occupied hocc).mp hstep
    refine Or.inr ⟨hocc, fun i => ⟨?_, ?_⟩⟩
    · rw [TracedKernel.endpoint, hkernel]
      exact endpointCleanupForTcb_apply env s.kernel.endpoints tcbId i
    · rw [htraces, TracedKernel.destroyTraces, if_neg (UInt32.not_le.mpr hocc.1),
        if_neg (by rw [hocc.2]; exact Bool.false_ne_true)]
  · have hkernel : s'.kernel = s.kernel := (destroyStep_free hocc).mp hstep
    refine Or.inl ⟨hocc, fun i => ⟨?_, ?_⟩⟩
    · rw [TracedKernel.endpoint, hkernel]
      rfl
    · rw [htraces, TracedKernel.destroyTraces]
      split_ifs with hid hfree
      · rfl
      · rfl
      · exact absurd ⟨UInt32.not_le.mp hid, by simpa using hfree⟩ hocc

/-- A message that the trace has as it was sent, by a call before `clock`. -/
def SentBefore (clock : Nat) (x : UInt32 × IpcMsg × Origin) : Prop :=
  x.1 = x.2.2.sender ∧ x.2.1 = x.2.2.msg ∧ x.2.2.time < clock

/-- One call: what can be received afterwards could be received before, or has just been
sent. -/
structure SpeakEffect (env : BootEnv) (s s' : TracedKernel) : Prop where
  clock : s'.clock = s.clock + 1
  wf : ∀ i, (s'.endpoint env i).WellFormed
  deliverable : ∀ i x, (s'.traces i).Deliverable (s'.endpoint env i) x →
    (s.traces i).Deliverable (s.endpoint env i) x ∨ SentBefore s'.clock x ∧ x.2.2.time = s.clock

theorem SpeakEffect.of_endpoint (hwf : ∀ i, (s.endpoint env i).WellFormed) {i : Fin maxEndpoints}
    {tcbs : TcbTable} {ep : Endpoint} {tr : Trace} (hep : ep.WellFormed)
    (hx : ∀ x, tr.Deliverable ep x → (s.traces i).Deliverable (s.endpoint env i) x ∨
      SentBefore (s.clock + 1) x ∧ x.2.2.time = s.clock) :
    SpeakEffect env s (s.setEndpoint env i tcbs ep tr) := by
  refine ⟨rfl, fun j => ?_, fun j x hj => ?_⟩
  · by_cases hji : j = i
    · subst hji
      rw [(s.setEndpoint_self env j tcbs ep tr).1]
      exact hep
    · rw [(TracedKernel.setEndpoint_ne hji s env tcbs ep tr).1]
      exact hwf j
  · by_cases hji : j = i
    · subst hji
      obtain ⟨hself, htrace⟩ := s.setEndpoint_self env j tcbs ep tr
      rw [hself, htrace] at hj
      exact hx x hj
    · obtain ⟨hother, htrace⟩ := TracedKernel.setEndpoint_ne hji s env tcbs ep tr
      rw [hother, htrace] at hj
      exact Or.inl hj

theorem speakStep_effect {c : SpeakCall} (hwf : ∀ i, (s.endpoint env i).WellFormed)
    (hstep : SpeakStep env s c s') : SpeakEffect env s s' := by
  cases c with
  | send i sender msg =>
    rw [Fuel.Yields.const hstep]
    refine .of_endpoint hwf (endpointSend_wellFormed (hwf i) rfl) fun x hx => ?_
    rcases deliverable_of_send (hwf i) s.kernel.tcbs ⟨sender, msg, s.clock⟩ hx with hold | rfl
    · exact Or.inl hold
    · exact Or.inr ⟨⟨rfl, rfl, Nat.lt_succ_self s.clock⟩, rfl⟩
  | recv i receiver =>
    rw [Fuel.Yields.const hstep]
    refine .of_endpoint hwf (endpointRecv_wellFormed (hwf i) rfl) fun x hx => ?_
    exact Or.inl (deliverable_of_recv (hwf i) s.kernel.tcbs receiver hx)
  | create args =>
    rw [Fuel.Yields.const hstep]
    exact ⟨rfl, hwf, fun i x hx => Or.inl hx⟩
  | destroy tcbId =>
    obtain ⟨hclock, ⟨-, hsame⟩ | ⟨-, hcleaned⟩⟩ := speakStep_destroy_cases hstep
    · refine ⟨hclock, fun i => ?_, fun i x hx => ?_⟩
      · rw [(hsame i).1]
        exact hwf i
      · rw [(hsame i).1, (hsame i).2] at hx
        exact Or.inl hx
    · refine ⟨hclock, fun i => ?_, fun i x hx => ?_⟩
      · rw [(hcleaned i).1]
        exact (cleanup_spec (hwf i) (s.traces i) tcbId).1
      · rw [(hcleaned i).1, (hcleaned i).2] at hx
        exact Or.inl (deliverable_of_cleanup (hwf i) tcbId hx).1

/-- The traces tell where the messages came from. -/
structure TracesSound (env : BootEnv) (s : TracedKernel) : Prop where
  wf : ∀ i, (s.endpoint env i).WellFormed
  origin : ∀ i x, (s.traces i).Deliverable (s.endpoint env i) x → SentBefore s.clock x

theorem TracesSound.step {c : SpeakCall} (h : TracesSound env s) (hstep : SpeakStep env s c s') :
    TracesSound env s' := by
  obtain ⟨hclock, hwf, heffect⟩ := speakStep_effect h.wf hstep
  refine ⟨hwf, fun i x hx => ?_⟩
  rcases heffect i x hx with hold | ⟨hnew, -⟩
  · obtain ⟨hsender, hmsg, htime⟩ := h.origin i x hold
    exact ⟨hsender, hmsg, by omega⟩
  · exact hnew

/-- `endpoint_recv` on endpoint `i` returns the message of `o`. -/
def HearsFrom (env : BootEnv) (s : TracedKernel) (i : Fin maxEndpoints) (o : Origin) : Prop :=
  ((s.traces i).recv (s.endpoint env i)).1 = some o ∧
    ∀ receiver, (endpointRecv s.kernel.tcbs (s.endpoint env i) receiver).2.1 = some o.msg

theorem HearsFrom.deliverable (h : TracesSound env s) {i : Fin maxEndpoints} {o : Origin}
    (ho : HearsFrom env s i o) :
    ∃ x, (s.traces i).Deliverable (s.endpoint env i) x ∧ x.2.2 = o := by
  obtain ⟨hnone, -⟩ | ⟨x, hx, hsome, -⟩ :=
    recv_deliverable (h.wf i) (s.traces i) s.kernel.tcbs 0
  · exact absurd (ho.1.symm.trans hnone) (Option.some_ne_none o)
  · exact ⟨x, hx, Option.some.inj (hsome.symm.trans ho.1)⟩

/-- Every message that is received has an origin. -/
theorem TracesSound.hears (h : TracesSound env s) {i : Fin maxEndpoints} {receiver : UInt32}
    {msg : IpcMsg}
    (hrecv : (endpointRecv s.kernel.tcbs (s.endpoint env i) receiver).2.1 = some msg) :
    ∃ o, HearsFrom env s i o ∧ o.msg = msg := by
  have hreturns : ∀ r, ((s.traces i).recv (s.endpoint env i)).1 = none ∧
      (endpointRecv s.kernel.tcbs (s.endpoint env i) r).2.1 = none ∨
      ∃ o, ((s.traces i).recv (s.endpoint env i)).1 = some o ∧
        (endpointRecv s.kernel.tcbs (s.endpoint env i) r).2.1 = some o.msg := by
    intro r
    obtain hnone | ⟨x, hx, htrace, hmsg⟩ := recv_deliverable (h.wf i) (s.traces i) s.kernel.tcbs r
    · exact Or.inl hnone
    · rw [(h.origin i x hx).2.1] at hmsg
      exact Or.inr ⟨x.2.2, htrace, hmsg⟩
  obtain ⟨-, hnone⟩ | ⟨o, htrace, hmsg⟩ := hreturns receiver
  · exact absurd (hrecv.symm.trans hnone) (Option.some_ne_none msg)
  · refine ⟨o, ⟨htrace, fun r => ?_⟩, Option.some.inj (hmsg.symm.trans hrecv)⟩
    obtain ⟨hnone, -⟩ | ⟨o', htrace', hmsg'⟩ := hreturns r
    · exact absurd (htrace.symm.trans hnone) (Option.some_ne_none o)
    · rw [Option.some.inj (htrace.symm.trans htrace')]
      exact hmsg'

/-- Nothing that thread `t` sent before `time` can be received. -/
structure SilentSince (env : BootEnv) (t : UInt32) (time : Nat) (s : TracedKernel) : Prop where
  sound : TracesSound env s
  past : time ≤ s.clock
  silent : ∀ i x, (s.traces i).Deliverable (s.endpoint env i) x →
    ¬ (x.2.2.sender = t ∧ x.2.2.time < time)

/-- Later calls number their messages with later times. -/
theorem SilentSince.step {c : SpeakCall} {t : UInt32} {time : Nat} (h : SilentSince env t time s)
    (hstep : SpeakStep env s c s') : SilentSince env t time s' := by
  obtain ⟨hclock, -, heffect⟩ := speakStep_effect h.sound.wf hstep
  have hpast := h.past
  refine ⟨h.sound.step hstep, by omega, fun i x hx => ?_⟩
  rcases heffect i x hx with hold | ⟨-, hnew⟩
  · exact h.silent i x hold
  · intro hold
    omega

/-! ### Destruction -/

/-- The cleanup does not look at a message that waits in `pending_msg`. -/
theorem cleanup_of_rendezvous {ep : Endpoint} (h : ep.WellFormed) (hr : ep.Rendezvous) (tr : Trace)
    (tcbId : UInt32) : ep.cleanup tcbId = ep ∧ tr.cleanup ep tcbId = tr := by
  have hreceiver : ¬ (ep.hasReceiver = true ∧ ep.receiverTcb = tcbId) := by
    intro hwaiting
    have hpending := (h.receiver hwaiting.1).2
    rw [hr.1] at hpending
    cases hpending
  have hsame : ep.dropReceiver tcbId = ep := if_neg hreceiver
  constructor
  · simp only [Endpoint.cleanup, hsame, hr.2]
    rfl
  · simp only [Trace.cleanup, hsame, hr.2]
    rfl

theorem TracesSound.rendezvous_survives (h : TracesSound env s) {t : UInt32}
    (hocc : Occupied s.kernel t) (hstep : SpeakStep env s (.destroy t) s') {i : Fin maxEndpoints}
    (hr : (s.endpoint env i).Rendezvous) :
    HearsFrom env s' i (s.traces i).pending ∧ (s.traces i).pending.time < s.clock := by
  obtain ⟨-, hmsg, htime⟩ := h.origin i _ (Or.inl ⟨hr, rfl⟩)
  obtain ⟨-, ⟨hfree, -⟩ | ⟨-, hcleaned⟩⟩ := speakStep_destroy_cases hstep
  · exact absurd hocc hfree
  · obtain ⟨hep, htr⟩ := cleanup_of_rendezvous (h.wf i) hr (s.traces i) t
    have hempty : ¬ (s.endpoint env i).qLen > 0 := by
      rw [hr.2]
      exact UInt8.lt_irrefl 0
    rw [HearsFrom, (hcleaned i).1, (hcleaned i).2, hep, htr]
    refine ⟨⟨?_, fun receiver => ?_⟩, htime⟩
    · rw [Trace.recv, if_neg hempty, if_pos hr.1]
    · rw [endpointRecv, if_neg hempty, if_pos hr.1]
      exact congrArg some hmsg

/-- Where no message of the thread waits in `pending_msg`, destruction silences it. -/
theorem TracesSound.silent_after (h : TracesSound env s) {t : UInt32} (hocc : Occupied s.kernel t)
    (hstep : SpeakStep env s (.destroy t) s')
    (hnone : ∀ i, (s.endpoint env i).Rendezvous → (s.traces i).pending.sender ≠ t) :
    SilentSince env t s.clock s' := by
  obtain ⟨hclock, ⟨hfree, -⟩ | ⟨-, hcleaned⟩⟩ := speakStep_destroy_cases hstep
  · exact absurd hocc hfree
  · refine ⟨h.step hstep, by omega, fun i x hx hold => ?_⟩
    rw [(hcleaned i).1, (hcleaned i).2] at hx
    obtain ⟨hbefore, hleft⟩ := deliverable_of_cleanup (h.wf i) t hx
    obtain ⟨hr, hpending⟩ := hleft ((h.origin i x hbefore).1.trans hold.1)
    rw [hpending] at hold
    exact hnone i hr hold.1

end

theorem tracesSound_start {env : BootEnv} {s : TracedKernel}
    (hzero : ∀ i, s.endpoint env i = Endpoint.zero) : TracesSound env s := by
  refine ⟨fun i => ?_, fun i x hx => ?_⟩
  · rw [hzero i]
    exact Endpoint.zero_wellFormed
  · rw [hzero i] at hx
    rcases hx with ⟨⟨hp, -⟩, -⟩ | hmem
    · cases hp
    · cases hmem

/-- In every state reached from zeroed endpoints, after the destruction of thread `t` every
message that `endpoint_recv` returns comes from another thread or was sent later, exactly
when at the destruction no message of the thread waits in the `pending_msg` of an endpoint
with an empty queue. -/
theorem destroyed_thread_silent_iff {env : BootEnv} {k₀ : Kernel}
    (hzero : ∀ i, k₀.endpoints (gEndpoint env i) = Endpoint.zero)
    (traces : Fin maxEndpoints → Trace) {cs : List SpeakCall} {s s' : TracedKernel} {t : UInt32}
    (hrun : Run.Steps (SpeakStep env) ⟨k₀, traces, 0⟩ cs s) (hocc : Occupied s.kernel t)
    (hdestroy : SpeakStep env s (.destroy t) s') :
    (∀ cs' s'', Run.Steps (SpeakStep env) s' cs' s'' → ∀ i receiver msg,
      (endpointRecv s''.kernel.tcbs (s''.endpoint env i) receiver).2.1 = some msg →
        ∃ o, HearsFrom env s'' i o ∧ o.msg = msg ∧ ¬ (o.sender = t ∧ o.time < s.clock)) ↔
    ∀ i, (s.endpoint env i).Rendezvous → (s.traces i).pending.sender ≠ t := by
  have hsound : TracesSound env s :=
    hrun.invariant (fun _ _ _ hstep h => h.step hstep) (tracesSound_start hzero)
  constructor
  · intro hsilent i hr hsender
    obtain ⟨hhears, htime⟩ := hsound.rendezvous_survives hocc hdestroy hr
    obtain ⟨o, ho, -, hnot⟩ := hsilent [] s' .nil i t _ (hhears.2 t)
    obtain rfl : (s.traces i).pending = o := Option.some.inj (hhears.1.symm.trans ho.1)
    exact hnot ⟨hsender, htime⟩
  · intro hnone cs' s'' hlater i receiver msg hrecv
    have hsilent : SilentSince env t s.clock s'' :=
      hlater.invariant (fun _ _ _ hstep h => h.step hstep) (hsound.silent_after hocc hdestroy hnone)
    obtain ⟨o, ho, hmsg⟩ := hsilent.sound.hears hrecv
    obtain ⟨x, hx, rfl⟩ := ho.deliverable hsilent.sound
    exact ⟨x.2.2, ho, hmsg, hsilent.silent i x hx⟩

theorem speakStep_destroy_exists (env : BootEnv) {s : TracedKernel} (hflat : s.kernel.mdb.Flat)
    (hroot : s.kernel.mdb.parentOf 0 = Mdb.nil) (tcbId : UInt32) :
    ∃ s', SpeakStep env s (.destroy tcbId) s' := by
  have hreturns : ∃ k', TableStep env s.kernel (.destroy tcbId) k' :=
    tableStep_exists hflat hroot (.destroy tcbId)
  obtain ⟨k', hstep⟩ := hreturns
  exact ⟨_, Fuel.Yields.map hstep _⟩

/-- The first process of boot exists, and `cs` has happened since. -/
def helloTraced (cs : List SpeakCall) : TracedKernel :=
  let origin : Origin := ⟨0, IpcMsg.zero, 0⟩
  cs.foldl (fun s c => (s.speak 0 plainBoot c).getD s)
    ⟨((bootRoot plainBoot).create plainBoot (helloArgs plainBoot)).2.2,
      fun _ => ⟨origin, fun _ => origin⟩, 0⟩

theorem hello_destroy_exists {s : TracedKernel} (hs : s.kernel.mdb = (helloTraced []).kernel.mdb) :
    ∃ s', SpeakStep plainBoot s (.destroy 0) s' := by
  have hboot := bootRoot_mdb plainBoot
  have hstep : TableStep plainBoot (bootRoot plainBoot) (.create helloEntry)
      (helloTraced []).kernel := Fuel.yields_of_forall fun _ => rfl
  have hmdb := tableStep_mdb ⟨hboot.flat, hboot.root⟩ hstep
  rw [← hs] at hmdb
  exact speakStep_destroy_exists plainBoot hmdb.1 hmdb.2 0

def firstEndpoint : Fin maxEndpoints := ⟨0, by decide⟩

/-- The first process sends, and nobody waits for the message. -/
def queuedCalls : List SpeakCall := [.send firstEndpoint 0 IpcMsg.zero]

/-- A message in the queue goes with its sender. -/
theorem destroyed_thread_silent_queued :
    ∃ s', SpeakStep plainBoot (helloTraced queuedCalls) (.destroy 0) s' ∧
      ∀ cs' s'', Run.Steps (SpeakStep plainBoot) s' cs' s'' → ∀ i receiver msg,
        (endpointRecv s''.kernel.tcbs (s''.endpoint plainBoot i) receiver).2.1 = some msg →
          ∃ o, HearsFrom plainBoot s'' i o ∧ o.msg = msg ∧ ¬ (o.sender = 0 ∧ o.time < 1) := by
  have hmdb : (helloTraced queuedCalls).kernel.mdb = (helloTraced []).kernel.mdb := rfl
  obtain ⟨s', hdestroy⟩ := hello_destroy_exists hmdb
  have hrun : Run.Steps (SpeakStep plainBoot) (helloTraced []) queuedCalls
      (helloTraced queuedCalls) := .cons (Fuel.yields_of_forall fun _ => rfl) .nil
  have hocc : Occupied (helloTraced queuedCalls).kernel 0 := ⟨by decide, by decide +kernel⟩
  refine ⟨s', hdestroy, ?_⟩
  refine (destroyed_thread_silent_iff (fun _ => rfl) _ hrun hocc hdestroy).mpr fun i hr => ?_
  -- the queue of the first endpoint is not empty, and nothing was sent to the others
  by_cases hi : i = firstEndpoint
  · subst hi
    exact absurd hr.2 (by decide +kernel)
  · have hother : (helloTraced queuedCalls).endpoint plainBoot i = Endpoint.zero :=
      (TracedKernel.setEndpoint_ne hi (helloTraced []) plainBoot _ _ _).1
    rw [hother] at hr
    exact absurd hr.1 (by decide)

/-- The first process sends to thread 1, which waits. -/
def rendezvousCalls : List SpeakCall :=
  [.recv firstEndpoint 1, .send firstEndpoint 0 IpcMsg.zero]

/-- A message for a waiting receiver is received after its sender is gone. -/
theorem destroyed_thread_heard :
    (∀ i, (helloTraced []).endpoint plainBoot i = Endpoint.zero) ∧
    Run.Steps (SpeakStep plainBoot) (helloTraced []) rendezvousCalls (helloTraced rendezvousCalls) ∧
    Occupied (helloTraced rendezvousCalls).kernel 0 ∧
    ∃ s', SpeakStep plainBoot (helloTraced rendezvousCalls) (.destroy 0) s' ∧
      ∃ o, HearsFrom plainBoot s' firstEndpoint o ∧
        o.sender = 0 ∧ o.time < (helloTraced rendezvousCalls).clock := by
  have hzero : ∀ i, (helloTraced []).endpoint plainBoot i = Endpoint.zero := fun _ => rfl
  have hrun : Run.Steps (SpeakStep plainBoot) (helloTraced []) rendezvousCalls
      (helloTraced rendezvousCalls) :=
    .cons (Fuel.yields_of_forall fun _ => rfl) (.cons (Fuel.yields_of_forall fun _ => rfl) .nil)
  have hocc : Occupied (helloTraced rendezvousCalls).kernel 0 := ⟨by decide, by decide +kernel⟩
  have hmdb : (helloTraced rendezvousCalls).kernel.mdb = (helloTraced []).kernel.mdb := rfl
  obtain ⟨s', hdestroy⟩ := hello_destroy_exists hmdb
  have hsound : TracesSound plainBoot (helloTraced rendezvousCalls) :=
    hrun.invariant (fun _ _ _ hstep h => h.step hstep) (tracesSound_start hzero)
  have hr : ((helloTraced rendezvousCalls).endpoint plainBoot firstEndpoint).Rendezvous :=
    ⟨by decide +kernel, by decide +kernel⟩
  obtain ⟨hhears, htime⟩ := hsound.rendezvous_survives hocc hdestroy hr
  exact ⟨hzero, hrun, hocc, s', hdestroy, _, hhears, by decide +kernel, htime⟩

end Moonlight
