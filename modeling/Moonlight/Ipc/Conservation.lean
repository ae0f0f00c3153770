import Moonlight.Ipc.Endpoint
import Moonlight.Lib.Run

/-!
# Message conservation on one endpoint

A history carries, beside the endpoint and the thread table, the messages whose
send returned `ERR_OK` and the messages handed out by the delivering receives.
Conservation says that the second list followed by what is still deliverable is
the first one.

A send that finds a rendezvous message not yet picked up goes to the ring and
overwrites `pendingMsg`.  `endpoint_conserves_iff` shows that this is the only
way to lose a message: a run conserves its messages exactly when no accepted
send of it meets that state.
-/

namespace Moonlight

/-- The messages later receives will return: the rendezvous message, then the
queue.  While the queue is non-empty `pendingMsg` only repeats a queued
message. -/
def Endpoint.deliverable (ep : Endpoint) : List IpcMsg :=
  (if ep.pending = true ∧ ep.qLen = 0 then [ep.pendingMsg] else []) ++ ep.entries.map Prod.snd

inductive EpCall where
  | send (sender : UInt32) (msg : IpcMsg)
  | recv (receiver : UInt32)

structure EpHistory where
  tcbs : TcbTable
  ep : Endpoint
  sent : List IpcMsg
  received : List IpcMsg

namespace EpHistory

def start (tcbs : TcbTable) : EpHistory :=
  { tcbs := tcbs, ep := Endpoint.zero, sent := [], received := [] }

def step (h : EpHistory) : EpCall → EpHistory
  | .send sender msg =>
      let r := endpointSend h.tcbs h.ep sender msg
      { tcbs := r.2.1, ep := r.2.2, received := h.received,
        sent := if r.1 = .ok then h.sent ++ [msg] else h.sent }
  | .recv receiver =>
      let r := endpointRecv h.tcbs h.ep receiver
      { tcbs := r.2.2.1, ep := r.2.2.2, sent := h.sent,
        received := h.received ++ r.2.1.toList }

/-- Messages that were received or can still be. -/
def accounted (h : EpHistory) : List IpcMsg := h.received ++ h.ep.deliverable

def Conserved (h : EpHistory) : Prop := h.accounted = h.sent

/-- The call is an accepted send into an endpoint whose rendezvous message has
not been picked up. -/
def Overwrites (h : EpHistory) : EpCall → Prop
  | .send _ msg => MsgFits msg ∧ h.ep.pending = true ∧ h.ep.qLen = 0
  | .recv _ => False

theorem step_wellFormed {h : EpHistory} (hwf : h.ep.WellFormed) (c : EpCall) :
    (h.step c).ep.WellFormed := by
  cases c with
  | send sender msg => exact endpointSend_wellFormed hwf rfl
  | recv receiver => exact endpointRecv_wellFormed hwf rfl

theorem deliverable_of_queue {ep : Endpoint} (h : ep.qLen ≠ 0) :
    ep.deliverable = ep.entries.map Prod.snd := by
  simp [Endpoint.deliverable, h]

theorem deliverable_of_empty {ep : Endpoint} (h : ep.qLen = 0) :
    ep.deliverable = if ep.pending = true then [ep.pendingMsg] else [] := by
  simp [Endpoint.deliverable, h, Endpoint.entries_eq_nil h]

theorem qLen_succ_ne_zero {n : UInt8} (h : n < 16) : n + 1 ≠ 0 := by
  intro hz
  have := Endpoint.toNat_succ h
  rw [hz] at this
  exact absurd this (by simp)

/-- A queueing send leaves exactly the queue and the new message deliverable. -/
theorem deliverable_queued {ep ep' : Endpoint} (sender : UInt32) (msg : IpcMsg)
    (hwf : ep.WellFormed) (hq : ep.qLen < 16)
    (h : ep' = { ep with
      queue := Function.update ep.queue ep.qTail.toNat sender
      queueMsgs := Function.update ep.queueMsgs ep.qTail.toNat msg
      qTail := (ep.qTail + 1) % 16, qLen := ep.qLen + 1, pendingMsg := msg, pending := true }) :
    ep'.deliverable = ep.entries.map Prod.snd ++ [msg] := by
  subst h
  rw [deliverable_of_queue (qLen_succ_ne_zero hq), Endpoint.entries]
  rw [hwf.entries_push hq sender msg, List.map_append]
  rfl

/-- Any other call appends the same messages to both sides of the account. -/
theorem step_append {h : EpHistory} (hwf : h.ep.WellFormed) {c : EpCall}
    (hc : ¬ h.Overwrites c) :
    ∃ new, (h.step c).accounted = h.accounted ++ new ∧ (h.step c).sent = h.sent ++ new := by
  cases c with
  | send sender msg =>
    rcases endpointSend_cases h.tcbs h.ep sender msg with
      ⟨-, heq⟩ | ⟨-, hr, heq⟩ | ⟨-, -, -, heq⟩ | ⟨hfits, hr, hq, heq⟩
    · exact ⟨[], by simp [step, heq, accounted], by simp [step, heq]⟩
    · -- Rendezvous: the receiver was registered, so nothing was stored before.
      obtain ⟨hz, hp⟩ := hwf.receiver hr
      refine ⟨[msg], ?_, by simp [step, heq]⟩
      simp [step, heq, accounted, deliverable_of_empty, hz, hp]
    · exact ⟨[], by simp [step, heq, accounted], by simp [step, heq]⟩
    · refine ⟨[msg], ?_, by simp [step, heq]⟩
      have hdel := deliverable_queued sender msg hwf hq rfl
      simp only [step, heq, accounted, hdel, List.append_assoc, List.append_cancel_left_eq]
      by_cases hz : h.ep.qLen = 0
      · have hp : ¬ h.ep.pending = true := fun hp => hc ⟨hfits, hp, hz⟩
        simp [deliverable_of_empty hz, hp, Endpoint.entries_eq_nil hz]
      · rw [deliverable_of_queue hz]
  | recv receiver =>
    refine ⟨[], ?_, by simp [step]⟩
    rcases endpointRecv_cases h.tcbs h.ep receiver with
      ⟨hq, ep', heq, hqu, hqm, -, hh, hl, -, hpend, -⟩ | ⟨hz, hp, heq⟩ | ⟨hz, hp, heq⟩
    · have hne : h.ep.qLen ≠ 0 := fun hz => by rw [hz] at hq; exact absurd hq (by decide)
      have hrest : ep'.deliverable = ep'.entries.map Prod.snd := by
        by_cases hz : ep'.qLen = 0
        · simp [deliverable_of_empty hz, hpend hz, Endpoint.entries_eq_nil hz]
        · exact deliverable_of_queue hz
      simp only [step, heq, accounted, hrest, deliverable_of_queue hne, hwf.entries_pop hq]
      simp [Endpoint.entries, hqu, hqm, hh, hl]
    · simp [step, heq, accounted, deliverable_of_empty, hz, hp]
    · simp [step, heq, accounted, deliverable_of_empty, hz, hp]

/-- An overwriting send is accepted and replaces the one deliverable message. -/
theorem step_overwrites {h : EpHistory} (hwf : h.ep.WellFormed) {c : EpCall}
    (hc : h.Overwrites c) :
    (h.step c).accounted.length = h.accounted.length ∧
      (h.step c).sent.length = h.sent.length + 1 := by
  cases c with
  | recv receiver => exact absurd hc id
  | send sender msg =>
    obtain ⟨hfits, hp, hz⟩ := hc
    have hr : h.ep.hasReceiver = false := by
      cases hr : h.ep.hasReceiver with
      | false => rfl
      | true =>
        rw [(hwf.receiver hr).2] at hp
        cases hp
    rcases endpointSend_cases h.tcbs h.ep sender msg with
      ⟨hnot, -⟩ | ⟨-, hr', -⟩ | ⟨-, -, hfull, -⟩ | ⟨-, -, hq, heq⟩
    · exact absurd hfits hnot
    · rw [hr] at hr'
      cases hr'
    · rw [hz] at hfull
      exact absurd hfull (by decide)
    · have hdel := deliverable_queued sender msg hwf hq rfl
      constructor
      · simp [step, heq, accounted, hdel, deliverable_of_empty hz, hp,
          Endpoint.entries_eq_nil hz]
      · simp [step, heq]

/-- Messages once lost stay lost: the account never catches up again. -/
theorem exec_lossy {h : EpHistory} {calls : List EpCall} (hwf : h.ep.WellFormed)
    (hle : h.accounted.length ≤ h.sent.length)
    (hlossy : h.accounted.length < h.sent.length ∨
      ¬ Run.Guarded step (fun h c => ¬ h.Overwrites c) h calls) :
    (Run.exec step h calls).accounted.length < (Run.exec step h calls).sent.length := by
  induction calls generalizing h with
  | nil =>
    rcases hlossy with hlt | hng
    · exact hlt
    · exact absurd trivial hng
  | cons c calls ih =>
    rw [Run.exec_cons]
    by_cases hc : h.Overwrites c
    · obtain ⟨hacc, hsent⟩ := step_overwrites hwf hc
      exact ih (step_wellFormed hwf c) (by omega) (Or.inl (by omega))
    · obtain ⟨new, hacc, hsent⟩ := step_append hwf hc
      have hlacc := congrArg List.length hacc
      have hlsent := congrArg List.length hsent
      rw [List.length_append] at hlacc hlsent
      refine ih (step_wellFormed hwf c) (by omega) ?_
      rcases hlossy with hlt | hng
      · exact Or.inl (by omega)
      · exact Or.inr fun hg => hng ⟨hc, hg⟩

theorem exec_conserved {h : EpHistory} {calls : List EpCall} (hwf : h.ep.WellFormed)
    (hcons : h.Conserved) (hg : Run.Guarded step (fun h c => ¬ h.Overwrites c) h calls) :
    (Run.exec step h calls).Conserved := by
  have hstep : ∀ (s : EpHistory) (c : EpCall), ¬ s.Overwrites c →
      s.ep.WellFormed ∧ s.Conserved → (step s c).ep.WellFormed ∧ (step s c).Conserved := by
    rintro s c hc ⟨hs, hcs⟩
    obtain ⟨new, hacc, hsent⟩ := step_append hs hc
    refine ⟨step_wellFormed hs c, ?_⟩
    unfold Conserved at hcs ⊢
    rw [hacc, hsent, hcs]
  exact (Run.exec_invariant hstep hg ⟨hwf, hcons⟩).2

end EpHistory

/-- From the zeroed endpoint and any thread table, a sequence of calls loses,
duplicates or reorders no message if and only if none of its accepted sends
finds an undelivered rendezvous message. -/
theorem endpoint_conserves_iff (tcbs : TcbTable) (calls : List EpCall) :
    (Run.exec EpHistory.step (EpHistory.start tcbs) calls).Conserved ↔
      Run.Guarded EpHistory.step (fun h c => ¬ h.Overwrites c) (EpHistory.start tcbs) calls := by
  constructor
  · intro hcons
    by_contra hng
    have hwf : (EpHistory.start tcbs).ep.WellFormed := Endpoint.zero_wellFormed
    have hlt := EpHistory.exec_lossy hwf (Nat.le_refl 0) (Or.inr hng)
    rw [hcons] at hlt
    exact absurd hlt (Nat.lt_irrefl _)
  · exact EpHistory.exec_conserved Endpoint.zero_wellFormed rfl

/-- A receiver registers, then two messages are sent: the second send overwrites
the first message. -/
theorem endpoint_rendezvous_overwritten :
    ¬ (Run.exec EpHistory.step
        (EpHistory.start { threads := fun _ => Tcb.zero, count := 0 })
        [.recv 1, .send 0 { IpcMsg.zero with label := 1 },
          .send 0 { IpcMsg.zero with label := 2 }]).Conserved := by
  intro h
  have hlen := congrArg List.length h
  exact absurd hlen (by decide)

end Moonlight
