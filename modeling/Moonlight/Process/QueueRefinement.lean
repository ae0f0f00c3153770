/-
The ring of an endpoint as a bounded list.

The abstract queue of an endpoint is the list of its entries, each a sender with its
message.  Three functions change the ring behind it: `endpoint_send` writes at the tail,
`endpoint_recv` moves the head, and `endpoint_cleanup_for_tcb` deletes in place.  On the
list they append, drop the first entry and filter.
-/
import Moonlight.Lib.Run
import Moonlight.Process.Traces

namespace Moonlight

namespace Endpoint

variable {ep : Endpoint}

theorem length_entries (ep : Endpoint) : ep.entries.length = ep.qLen.toNat :=
  Ring.length_contents ..

theorem entries_eq_map_stored (ep : Endpoint) (tr : Trace) :
    ep.entries = (tr.stored ep).map fun x => (x.1, x.2.1) := by
  simp only [entries, Trace.stored, Ring.contents, List.map_map]
  rfl

/-- A send that fits and meets no receiver appends, and a full queue refuses it. -/
theorem WellFormed.send_refines (h : ep.WellFormed) (tcbs : TcbTable) (sender : UInt32)
    {msg : IpcMsg} (hfits : MsgFits msg) (hr : ep.hasReceiver = false) :
    (ep.entries.length = 16 ∧ endpointSend tcbs ep sender msg = (.overflow, tcbs, ep)) ∨
    (ep.entries.length < 16 ∧ ∃ ep', endpointSend tcbs ep sender msg = (.ok, tcbs, ep') ∧
      ep'.entries = ep.entries ++ [(sender, msg)]) := by
  have hle := h.len_le
  rw [length_entries]
  rcases endpointSend_cases tcbs ep sender msg with
    ⟨hnot, -⟩ | ⟨-, hwaiting, -⟩ | ⟨-, -, hfull, heq⟩ | ⟨-, -, hroom, heq⟩
  · exact absurd hfits hnot
  · exact absurd (hr.symm.trans hwaiting) Bool.false_ne_true
  · have hge : 16 ≤ ep.qLen.toNat := UInt8.le_iff_toNat_le.mp hfull
    exact Or.inl ⟨by omega, heq⟩
  · have hlt : ep.qLen.toNat < 16 := UInt8.lt_iff_toNat_lt.mp hroom
    exact Or.inr ⟨hlt, _, heq, h.entries_push hroom sender msg⟩

theorem WellFormed.recv_refines (h : ep.WellFormed) (tcbs : TcbTable) (receiver : UInt32)
    {sender : UInt32} {msg : IpcMsg} {rest : List (UInt32 × IpcMsg)}
    (hentries : ep.entries = (sender, msg) :: rest) :
    ∃ tcbs' ep', endpointRecv tcbs ep receiver = (.ok, some msg, tcbs', ep') ∧
      ep'.entries = rest := by
  have hlen : ep.qLen ≠ 0 := fun hz => by
    rw [entries_eq_nil hz] at hentries
    cases hentries
  rcases endpointRecv_cases tcbs ep receiver with
    ⟨hq, ep', heq, hqueue, hmsgs, -, hhead, hqlen, -⟩ | ⟨hz, -⟩ | ⟨hz, -⟩
  · rw [h.entries_pop hq] at hentries
    injection hentries with hfirst hrest
    injection hfirst with hsender hmsg
    refine ⟨_, ep', hmsg ▸ heq, ?_⟩
    rw [← hrest, entries, hqueue, hmsgs, hhead, hqlen]
  · exact absurd hz hlen
  · exact absurd hz hlen

theorem WellFormed.cleanup_refines (h : ep.WellFormed) (tcbId : UInt32) :
    (ep.cleanup tcbId).WellFormed ∧
      (ep.cleanup tcbId).entries = ep.entries.filter fun x => x.1 != tcbId := by
  -- any trace will do, since only the entries are looked at
  let tr : Trace := ⟨⟨0, IpcMsg.zero, 0⟩, fun _ => ⟨0, IpcMsg.zero, 0⟩⟩
  obtain ⟨hwf, hstored, -⟩ := cleanup_spec h tr tcbId
  refine ⟨hwf, ?_⟩
  rw [entries_eq_map_stored _ (tr.cleanup ep tcbId), hstored, entries_eq_map_stored ep tr,
    List.filter_map]
  rfl

end Endpoint

/-! ### Runs -/

/-- The thread table and the endpoints. -/
structure EndpointTable where
  tcbs : TcbTable
  endpoints : UInt64 → Endpoint

inductive EndpointCall where
  | send (i : Fin maxEndpoints) (sender : UInt32) (msg : IpcMsg)
  | recv (i : Fin maxEndpoints) (receiver : UInt32)
  | cleanup (tcbId : UInt32)

namespace EndpointTable

def start (tcbs : TcbTable) : EndpointTable :=
  { tcbs := tcbs, endpoints := fun _ => Endpoint.zero }

def step (env : BootEnv) (s : EndpointTable) : EndpointCall → EndpointTable
  | .send i sender msg =>
      let r := endpointSend s.tcbs (s.endpoints (gEndpoint env i)) sender msg
      { tcbs := r.2.1, endpoints := Function.update s.endpoints (gEndpoint env i) r.2.2 }
  | .recv i receiver =>
      let r := endpointRecv s.tcbs (s.endpoints (gEndpoint env i)) receiver
      { tcbs := r.2.2.1, endpoints := Function.update s.endpoints (gEndpoint env i) r.2.2.2 }
  | .cleanup tcbId => { s with endpoints := endpointCleanupForTcb env s.endpoints tcbId }

def WellFormed (env : BootEnv) (s : EndpointTable) : Prop :=
  ∀ i : Fin maxEndpoints, (s.endpoints (gEndpoint env i)).WellFormed

theorem wellFormed_update {env : BootEnv} {s : EndpointTable} (h : s.WellFormed env)
    (i : Fin maxEndpoints) {ep : Endpoint} (hep : ep.WellFormed) (j : Fin maxEndpoints) :
    (Function.update s.endpoints (gEndpoint env i) ep (gEndpoint env j)).WellFormed := by
  by_cases hji : j = i
  · subst hji
    rw [Function.update_self]
    exact hep
  · rw [Function.update_of_ne (gEndpoint_ne hji)]
    exact h j

theorem step_wellFormed (env : BootEnv) (s : EndpointTable) (c : EndpointCall)
    (h : s.WellFormed env) : (s.step env c).WellFormed env := by
  cases c with
  | send i sender msg => exact wellFormed_update h i (endpointSend_wellFormed (h i) rfl)
  | recv i receiver => exact wellFormed_update h i (endpointRecv_wellFormed (h i) rfl)
  | cleanup tcbId =>
    intro i
    show (endpointCleanupForTcb env s.endpoints tcbId (gEndpoint env i)).WellFormed
    rw [endpointCleanupForTcb_apply]
    exact ((h i).cleanup_refines tcbId).1

end EndpointTable

/-- In every state reached from zeroed endpoints the ring of each is in step, and the
three functions act on its entries as on a list of at most 16: a send appends or, on a
full queue, is refused without an effect, a receive takes the oldest entry, and the
cleanup for a thread keeps the entries of the others. -/
theorem endpoint_refines_list (env : BootEnv) (tcbs : TcbTable) (calls : List EndpointCall)
    (i : Fin maxEndpoints) :
    let s := Run.exec (EndpointTable.step env) (EndpointTable.start tcbs) calls
    let ep := s.endpoints (gEndpoint env i)
    ep.qLen.toNat ≤ 16 ∧ ep.qTail.toNat = (ep.qHead.toNat + ep.qLen.toNat) % 16 ∧
    (ep.hasReceiver = true → ep.qLen = 0 ∧ ep.pending = false) ∧
    (∀ sender msg, MsgFits msg → ep.hasReceiver = false →
      (ep.entries.length = 16 ∧ endpointSend s.tcbs ep sender msg = (.overflow, s.tcbs, ep)) ∨
      (ep.entries.length < 16 ∧ ∃ ep', endpointSend s.tcbs ep sender msg = (.ok, s.tcbs, ep') ∧
        ep'.entries = ep.entries ++ [(sender, msg)])) ∧
    (∀ receiver sender msg rest, ep.entries = (sender, msg) :: rest →
      ∃ tcbs' ep', endpointRecv s.tcbs ep receiver = (.ok, some msg, tcbs', ep') ∧
        ep'.entries = rest) ∧
    ∀ tcbId, (endpointCleanupForTcb env s.endpoints tcbId (gEndpoint env i)).entries =
      ep.entries.filter fun x => x.1 != tcbId := by
  intro s ep
  have hwf : ep.WellFormed :=
    Run.exec_invariant_of_forall (EndpointTable.step_wellFormed env) calls
      (fun _ => Endpoint.zero_wellFormed) i
  refine ⟨hwf.len_le, hwf.tail_eq, hwf.receiver, ?_, ?_, ?_⟩
  · intro sender msg hfits hr
    exact hwf.send_refines s.tcbs sender hfits hr
  · intro receiver sender msg rest hentries
    exact hwf.recv_refines s.tcbs receiver hentries
  · intro tcbId
    rw [endpointCleanupForTcb_apply]
    exact (hwf.cleanup_refines tcbId).2

end Moonlight
