/-
Where the messages of an endpoint come from.

A trace keeps beside every place of an endpoint that holds a message the call of
`endpoint_send` that stored it.  It is moved by the assignments that move the messages, and
the code never reads it.  With it one can say what `endpoint_cleanup_for_tcb` leaves: the
queue without the entries of the thread, and whatever stands in `pending_msg`.
-/
import Moonlight.Process.Destroy

namespace Moonlight

/-- A call of `endpoint_send`, by the number of the call. -/
structure Origin where
  sender : UInt32
  msg : IpcMsg
  time : Nat

/-- The origins of `pending_msg` and of the cells of the ring. -/
structure Trace where
  pending : Origin
  cells : Nat → Origin

namespace Trace

/-- What `endpoint_send` stores. -/
def send (tr : Trace) (ep : Endpoint) (o : Origin) : Trace :=
  if o.msg.length > ipcMsgMax then tr
  else if o.msg.caps > ipcCapsMax then tr
  else if ep.hasReceiver then { tr with pending := o }
  else if ep.qLen ≥ 16 then tr
  else { pending := o, cells := Function.update tr.cells ep.qTail.toNat o }

/-- What `endpoint_recv` returns, and what it copies to `pending_msg`. -/
def recv (tr : Trace) (ep : Endpoint) : Option Origin × Trace :=
  if ep.qLen > 0 then
    let head := (ep.qHead + 1) % 16
    let tr' : Trace := if ep.qLen - 1 = 0 then tr else { tr with pending := tr.cells head.toNat }
    (some (tr.cells ep.qHead.toNat), tr')
  else if ep.pending then (some tr.pending, tr)
  else (none, tr)

def removeAt (tr : Trace) (ep : Endpoint) (q : Nat) : Trace :=
  { tr with cells := Ring.shiftFrom 16 ep.qHead.toNat (ep.qLen.toNat - 1 - q) tr.cells q }

def dropSender (tcbId : UInt32) : Nat → Trace → Endpoint → Nat → Trace
  | 0, tr, _, _ => tr
  | n + 1, tr, ep, q =>
      if ep.queue (ep.cell q) = tcbId then
        dropSender tcbId n (tr.removeAt ep q) (ep.removeAt q) q
      else dropSender tcbId n tr ep (q + 1)

def cleanup (tr : Trace) (ep : Endpoint) (tcbId : UInt32) : Trace :=
  let ep' := ep.dropReceiver tcbId
  dropSender tcbId ep'.qLen.toNat tr ep' 0

/-- The queue with its origins, oldest first. -/
def stored (tr : Trace) (ep : Endpoint) : List (UInt32 × IpcMsg × Origin) :=
  Ring.contents 16 (fun i => (ep.queue i, ep.queueMsgs i, tr.cells i)) ep.qHead.toNat ep.qLen.toNat

end Trace

/-! ### Taking an entry out -/

namespace Endpoint

theorem shiftFrom_eq (n : Nat) (ep : Endpoint) (k : Nat) :
    shiftFrom n ep k =
      { ep with
        queue := Ring.shiftFrom 16 ep.qHead.toNat n ep.queue k
        queueMsgs := Ring.shiftFrom 16 ep.qHead.toNat n ep.queueMsgs k } := by
  induction n generalizing ep k with
  | zero => rfl
  | succ n ih =>
    rw [shiftFrom, ih]
    rfl

theorem removeAt_eq (ep : Endpoint) (q : Nat) :
    ep.removeAt q =
      { ep with
        queue := Ring.shiftFrom 16 ep.qHead.toNat (ep.qLen.toNat - 1 - q) ep.queue q
        queueMsgs := Ring.shiftFrom 16 ep.qHead.toNat (ep.qLen.toNat - 1 - q) ep.queueMsgs q
        qLen := ep.qLen - 1
        qTail := UInt8.ofNat ((ep.qHead.toNat + (ep.qLen - 1).toNat) % 16)
        pending := if ep.qLen - 1 = 0 then false else ep.pending } := by
  rw [removeAt, shiftFrom_eq]

theorem WellFormed.removeAt {ep : Endpoint} (h : ep.WellFormed) (hpos : 0 < ep.qLen) (q : Nat) :
    (ep.removeAt q).WellFormed := by
  have hlen := toNat_pred hpos
  have hle := h.len_le
  rw [removeAt_eq]
  refine ⟨h.head_lt, ?_, ?_, fun hr => ?_⟩
  · show (ep.qLen - 1).toNat ≤ 16
    omega
  · show (UInt8.ofNat ((ep.qHead.toNat + (ep.qLen - 1).toNat) % 16)).toNat = _
    rw [UInt8.toNat_ofNat']
    show _ % 256 = (ep.qHead.toNat + (ep.qLen - 1).toNat) % 16
    omega
  · -- a waiting receiver excludes a queue
    rw [(h.receiver hr).1] at hpos
    exact absurd hpos (by decide)

end Endpoint

theorem Trace.stored_removeAt (tr : Trace) {ep : Endpoint} (h : ep.WellFormed) {q : Nat}
    (hq : q < ep.qLen.toNat) :
    (tr.removeAt ep q).stored (ep.removeAt q) = (tr.stored ep).eraseIdx q := by
  have hpos : 0 < ep.qLen := UInt8.lt_iff_toNat_lt.mpr (Nat.zero_lt_of_lt hq)
  rw [stored, stored, ← Ring.contents_shiftFrom _ hq h.len_le, ← Ring.shiftFrom_prod,
    ← Ring.shiftFrom_prod, Endpoint.removeAt_eq, Trace.removeAt]
  simp only [Endpoint.toNat_pred hpos]

/-- What the loops of `endpoint_cleanup_for_tcb` leave alone: a message in `pending_msg` that
stood beside an empty queue, and no other. -/
structure PendingKept (tr tr' : Trace) (ep ep' : Endpoint) : Prop where
  origin : tr'.pending = tr.pending
  msg : ep'.pendingMsg = ep.pendingMsg
  flag : ep'.pending = true → ep'.qLen = 0 → ep.pending = true ∧ ep.qLen = 0

theorem Trace.length_stored (tr : Trace) (ep : Endpoint) : (tr.stored ep).length = ep.qLen.toNat :=
  Ring.length_contents ..

theorem Trace.getElem_stored (tr : Trace) (ep : Endpoint) {q : Nat}
    (hq : q < (tr.stored ep).length) : ((tr.stored ep)[q]).1 = ep.queue (ep.cell q) := by
  simp only [stored, Ring.getElem_contents]
  rfl

theorem PendingKept.removeAt {tr tr' : Trace} {ep ep' : Endpoint} {q : Nat}
    (h : PendingKept (tr.removeAt ep q) tr' (ep.removeAt q) ep') : PendingKept tr tr' ep ep' := by
  refine ⟨h.origin, h.msg.trans (by rw [Endpoint.removeAt_eq]), fun hp hz => ?_⟩
  -- the queue has not been empty, so emptying it has cleared the flag
  obtain ⟨hflag, hlen⟩ := h.flag hp hz
  rw [Endpoint.removeAt_eq] at hflag hlen
  simp only at hflag hlen
  rw [if_pos hlen] at hflag
  cases hflag

/-- The loop over the queue, with the rounds it has left. -/
theorem dropSender_spec (tcbId : UInt32) (n : Nat) {ep : Endpoint} (tr : Trace) (h : ep.WellFormed)
    {q : Nat} (hn : q + n = ep.qLen.toNat) :
    (Endpoint.dropSender tcbId n ep q).WellFormed ∧
    (Trace.dropSender tcbId n tr ep q).stored (Endpoint.dropSender tcbId n ep q) =
      (tr.stored ep).take q ++ ((tr.stored ep).drop q).filter (fun x => x.1 != tcbId) ∧
    PendingKept tr (Trace.dropSender tcbId n tr ep q) ep (Endpoint.dropSender tcbId n ep q) := by
  have hlen := tr.length_stored ep
  induction n generalizing ep tr q with
  | zero =>
    refine ⟨h, ?_, rfl, rfl, fun hp hz => ⟨hp, hz⟩⟩
    rw [List.take_of_length_le (by omega), List.drop_eq_nil_of_le (by omega), List.filter_nil,
      List.append_nil]
    rfl
  | succ n ih =>
    have hq : q < (tr.stored ep).length := by omega
    have hhead := tr.getElem_stored ep hq
    rw [Endpoint.dropSender, Trace.dropSender, List.drop_eq_getElem_cons hq]
    by_cases hsender : ep.queue (ep.cell q) = tcbId
    · have hpos : 0 < ep.qLen := UInt8.lt_iff_toNat_lt.mpr (Nat.zero_lt_of_lt (hlen ▸ hq))
      have hpred := Endpoint.toNat_pred hpos
      have hremove := tr.stored_removeAt h (hlen ▸ hq)
      have hlen' : (ep.removeAt q).qLen = ep.qLen - 1 := by rw [Endpoint.removeAt_eq]
      rw [if_pos hsender, if_pos hsender]
      obtain ⟨hwf, hstored, hpending⟩ := ih (tr.removeAt ep q) (h.removeAt hpos q) (q := q)
        (by rw [hlen']; omega) (Trace.length_stored ..)
      refine ⟨hwf, ?_, hpending.removeAt⟩
      have htake : ((tr.stored ep).take q).length = q := List.length_take_of_le (by omega)
      rw [hstored, hremove, List.eraseIdx_eq_take_drop_succ, List.take_left' htake,
        List.drop_left' htake, List.filter_cons_of_neg (by simp [hhead, hsender])]
    · rw [if_neg hsender, if_neg hsender]
      obtain ⟨hwf, hstored, hpending⟩ := ih tr h (q := q + 1) (by omega) hlen
      refine ⟨hwf, ?_, hpending⟩
      rw [hstored, List.filter_cons_of_pos (by simp [hhead, hsender]), List.take_succ_eq_append_getElem hq,
        List.append_assoc, List.singleton_append]

theorem Endpoint.WellFormed.dropReceiver {ep : Endpoint} (h : ep.WellFormed) (tcbId : UInt32) :
    (ep.dropReceiver tcbId).WellFormed := by
  unfold Endpoint.dropReceiver
  split_ifs
  · exact ⟨h.head_lt, h.len_le, h.tail_eq, fun hr => by cases hr⟩
  · exact h

theorem Endpoint.dropReceiver_kept (ep : Endpoint) (tr : Trace) (tcbId : UInt32) :
    tr.stored (ep.dropReceiver tcbId) = tr.stored ep ∧
      PendingKept tr tr ep (ep.dropReceiver tcbId) := by
  unfold Endpoint.dropReceiver
  split_ifs
  · exact ⟨rfl, rfl, rfl, fun hp => by cases hp⟩
  · exact ⟨rfl, rfl, rfl, fun hp hz => ⟨hp, hz⟩⟩

/-- The cleanup keeps the entries of the other threads, in their order. -/
theorem cleanup_spec {ep : Endpoint} (h : ep.WellFormed) (tr : Trace) (tcbId : UInt32) :
    (ep.cleanup tcbId).WellFormed ∧
    (tr.cleanup ep tcbId).stored (ep.cleanup tcbId) =
      (tr.stored ep).filter (fun x => x.1 != tcbId) ∧
    PendingKept tr (tr.cleanup ep tcbId) ep (ep.cleanup tcbId) := by
  obtain ⟨hsame, hkept⟩ := ep.dropReceiver_kept tr tcbId
  obtain ⟨hwf, hstored, hpending⟩ := dropSender_spec tcbId (ep.dropReceiver tcbId).qLen.toNat tr
    (h.dropReceiver tcbId) (Nat.zero_add _)
  rw [List.take_zero, List.drop_zero, List.nil_append, hsame] at hstored
  refine ⟨hwf, hstored, hpending.origin, hpending.msg.trans hkept.msg, fun hp hz => ?_⟩
  obtain ⟨hp', hz'⟩ := hpending.flag hp hz
  exact hkept.flag hp' hz'

/-! ### What can still be received -/

/-- A message of `pending_msg` waits to be picked up. -/
def Endpoint.Rendezvous (ep : Endpoint) : Prop := ep.pending = true ∧ ep.qLen = 0

/-- The message can be received from the endpoint. -/
def Trace.Deliverable (tr : Trace) (ep : Endpoint) (x : UInt32 × IpcMsg × Origin) : Prop :=
  ep.Rendezvous ∧ x = (tr.pending.sender, ep.pendingMsg, tr.pending) ∨ x ∈ tr.stored ep

section
variable {ep : Endpoint} {tr : Trace} {x : UInt32 × IpcMsg × Origin}

theorem stored_push (h : ep.WellFormed) (hq : ep.qLen < 16) (tr : Trace) (o : Origin) :
    Ring.contents 16
        (fun i => (Function.update ep.queue ep.qTail.toNat o.sender i,
          Function.update ep.queueMsgs ep.qTail.toNat o.msg i,
          Function.update tr.cells ep.qTail.toNat o i))
        ep.qHead.toNat (ep.qLen + 1).toNat =
      tr.stored ep ++ [(o.sender, o.msg, o)] := by
  have hcells : (fun i => (Function.update ep.queue ep.qTail.toNat o.sender i,
      Function.update ep.queueMsgs ep.qTail.toNat o.msg i,
      Function.update tr.cells ep.qTail.toNat o i)) =
      Function.update (fun i => (ep.queue i, ep.queueMsgs i, tr.cells i))
        ((ep.qHead.toNat + ep.qLen.toNat) % 16) (o.sender, o.msg, o) := by
    rw [← h.tail_eq]
    funext i
    by_cases hi : i = ep.qTail.toNat
    · subst hi
      simp only [Function.update_self]
    · simp only [Function.update_of_ne hi]
  rw [Endpoint.toNat_succ hq, hcells]
  exact Ring.contents_push (UInt8.lt_iff_toNat_lt.mp hq) _ _ _

theorem stored_pop (h : ep.WellFormed) (hq : 0 < ep.qLen) (tr : Trace) :
    tr.stored ep = (ep.queue ep.qHead.toNat, ep.queueMsgs ep.qHead.toNat, tr.cells ep.qHead.toNat) ::
      Ring.contents 16 (fun i => (ep.queue i, ep.queueMsgs i, tr.cells i))
        ((ep.qHead + 1) % 16).toNat (ep.qLen - 1).toNat := by
  have hpos : 0 < ep.qLen.toNat := UInt8.lt_iff_toNat_lt.mp hq
  have hpop := Ring.contents_pop 16 (fun i => (ep.queue i, ep.queueMsgs i, tr.cells i))
    ep.qHead.toNat (ep.qLen.toNat - 1)
  rw [Nat.sub_add_cancel hpos, Nat.mod_eq_of_lt h.head_lt] at hpop
  rw [Endpoint.toNat_pred hq, Endpoint.toNat_next]
  exact hpop

theorem deliverable_of_send (h : ep.WellFormed) (tcbs : TcbTable) (o : Origin)
    (hx : (tr.send ep o).Deliverable (endpointSend tcbs ep o.sender o.msg).2.2 x) :
    tr.Deliverable ep x ∨ x = (o.sender, o.msg, o) := by
  unfold Trace.send at hx
  rcases endpointSend_cases tcbs ep o.sender o.msg with
    ⟨hfits, heq⟩ | ⟨hfits, hr, heq⟩ | ⟨hfits, hr, hq, heq⟩ | ⟨hfits, hr, hq, heq⟩
  · rw [heq] at hx
    have hrefused : o.msg.length > ipcMsgMax ∨ o.msg.caps > ipcCapsMax := by
      by_contra hnot
      rw [not_or] at hnot
      exact hfits ⟨UInt32.not_lt.mp hnot.1, UInt32.not_lt.mp hnot.2⟩
    split_ifs at hx with hl hc
    · exact Or.inl hx
    · exact Or.inl hx
    · exact absurd hrefused (not_or.mpr ⟨hl, hc⟩)
    · exact absurd hrefused (not_or.mpr ⟨hl, hc⟩)
    · exact absurd hrefused (not_or.mpr ⟨hl, hc⟩)
  all_goals
    rw [if_neg (UInt32.not_lt.mpr hfits.1), if_neg (UInt32.not_lt.mpr hfits.2), heq] at hx
  · rw [if_pos hr] at hx
    rcases hx with ⟨-, rfl⟩ | hstored
    · exact Or.inr rfl
    · exact Or.inl (Or.inr hstored)
  · rw [if_neg (by simp [hr]), if_pos hq] at hx
    exact Or.inl hx
  · rw [if_neg (by simp [hr]), if_neg (UInt8.not_le.mpr hq)] at hx
    rcases hx with ⟨⟨-, hz⟩, -⟩ | hstored
    · have hsucc := Endpoint.toNat_succ hq
      rw [show ep.qLen + 1 = 0 from hz] at hsucc
      exact absurd hsucc (Nat.zero_ne_add_one _)
    · rw [Trace.stored, stored_push h hq tr o, List.mem_append, List.mem_singleton] at hstored
      exact hstored.imp_left Or.inr

theorem deliverable_of_recv (h : ep.WellFormed) (tcbs : TcbTable) (receiver : UInt32)
    (hx : (tr.recv ep).2.Deliverable (endpointRecv tcbs ep receiver).2.2.2 x) :
    tr.Deliverable ep x := by
  unfold Trace.recv at hx
  rcases endpointRecv_cases tcbs ep receiver with
    ⟨hq, ep', heq, hqu, hqm, -, hh, hl, -, hpend, -⟩ | ⟨hz, hp, heq⟩ | ⟨hz, hp, heq⟩
  · rw [if_pos hq, heq] at hx
    rcases hx with ⟨⟨hp, hz⟩, -⟩ | hstored
    · rw [hpend hz] at hp
      cases hp
    · have hcells : ∀ tr' : Trace, tr'.cells = tr.cells →
          x ∈ tr'.stored ep' → x ∈ tr.stored ep := by
        intro tr' hcells hmem
        rw [Trace.stored, hqu, hqm, hcells, hh, hl] at hmem
        rw [stored_pop h hq tr]
        exact List.mem_cons_of_mem _ hmem
      refine Or.inr (hcells _ ?_ hstored)
      simp only
      split_ifs <;> rfl
  all_goals
    rw [if_neg (by simp [hz]), heq] at hx
  · rw [if_pos hp] at hx
    rcases hx with ⟨⟨hp', -⟩, -⟩ | hstored
    · cases hp'
    · exact Or.inr hstored
  · rw [if_neg (by simp [hp])] at hx
    rcases hx with ⟨⟨hp', -⟩, -⟩ | hstored
    · exact absurd (hp.symm.trans hp') Bool.false_ne_true
    · exact Or.inr hstored

/-- The message `endpoint_recv` returns is a deliverable one. -/
theorem recv_deliverable (h : ep.WellFormed) (tr : Trace) (tcbs : TcbTable) (receiver : UInt32) :
    ((tr.recv ep).1 = none ∧ (endpointRecv tcbs ep receiver).2.1 = none) ∨
    ∃ x, tr.Deliverable ep x ∧ (tr.recv ep).1 = some x.2.2 ∧
      (endpointRecv tcbs ep receiver).2.1 = some x.2.1 := by
  unfold Trace.recv
  rcases endpointRecv_cases tcbs ep receiver with
    ⟨hq, ep', heq, -⟩ | ⟨hz, hp, heq⟩ | ⟨hz, hp, heq⟩
  · rw [if_pos hq, heq]
    refine Or.inr ⟨(ep.queue ep.qHead.toNat, ep.queueMsgs ep.qHead.toNat, tr.cells ep.qHead.toNat),
      Or.inr ?_, rfl, rfl⟩
    rw [stored_pop h hq tr]
    exact List.mem_cons_self
  all_goals
    rw [if_neg (by simp [hz]), heq]
  · rw [if_pos hp]
    exact Or.inr ⟨_, Or.inl ⟨⟨hp, hz⟩, rfl⟩, rfl, rfl⟩
  · rw [if_neg (by simp [hp])]
    exact Or.inl ⟨rfl, rfl⟩

/-- After the cleanup what is left of the thread is what was in `pending_msg`. -/
theorem deliverable_of_cleanup (h : ep.WellFormed) (tcbId : UInt32)
    (hx : (tr.cleanup ep tcbId).Deliverable (ep.cleanup tcbId) x) :
    tr.Deliverable ep x ∧ (x.1 = tcbId → ep.Rendezvous ∧ x.2.2 = tr.pending) := by
  obtain ⟨-, hstored, hkept⟩ := cleanup_spec h tr tcbId
  rcases hx with ⟨⟨hp, hz⟩, rfl⟩ | hmem
  · have hrendezvous := hkept.flag hp hz
    rw [hkept.origin, hkept.msg]
    exact ⟨Or.inl ⟨hrendezvous, rfl⟩, fun _ => ⟨hrendezvous, rfl⟩⟩
  · rw [hstored, List.mem_filter] at hmem
    exact ⟨Or.inr hmem.1, fun heq => by simp [heq] at hmem⟩

end

end Moonlight
