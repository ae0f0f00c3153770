/-
Synchronous endpoints.

An endpoint stores messages in two places: `pendingMsg`, written when a receiver
is already waiting, and a ring of sixteen slots otherwise.  Both paths set the
one `pending` flag, and the queueing path overwrites `pendingMsg` as well.

The fields `has_sender`, `sender_tcb` and `badge` are never read or written by
the code and are left out.
-/
import Moonlight.Ipc.Tcb
import Moonlight.Lib.Ring

namespace Moonlight

/-- `endpoint_t`. -/
structure Endpoint where
  hasReceiver : Bool
  receiverTcb : UInt32
  pendingMsg : IpcMsg
  pending : Bool
  queue : Nat → UInt32
  queueMsgs : Nat → IpcMsg
  qHead : UInt8
  qTail : UInt8
  qLen : UInt8

namespace Endpoint

def zero : Endpoint :=
  { hasReceiver := false, receiverTcb := 0, pendingMsg := IpcMsg.zero, pending := false,
    queue := fun _ => 0, queueMsgs := fun _ => IpcMsg.zero, qHead := 0, qTail := 0, qLen := 0 }

/-- The queued senders with their messages, oldest first. -/
def entries (ep : Endpoint) : List (UInt32 × IpcMsg) :=
  Ring.contents 16 (fun i => (ep.queue i, ep.queueMsgs i)) ep.qHead.toNat ep.qLen.toNat

/-- The shape every endpoint keeps: ring indices in step, and a registered
receiver only while nothing is stored. -/
structure WellFormed (ep : Endpoint) : Prop where
  head_lt : ep.qHead.toNat < 16
  len_le : ep.qLen.toNat ≤ 16
  tail_eq : ep.qTail.toNat = (ep.qHead.toNat + ep.qLen.toNat) % 16
  receiver : ep.hasReceiver = true → ep.qLen = 0 ∧ ep.pending = false

end Endpoint

/-- `tcb_wake_from_ipc(&g_tcbs.threads[recvr], sender)` behind its bound check. -/
def wakeReceiver (tcbs : TcbTable) (recvr : UInt32) : TcbTable :=
  if recvr < maxTcbs then
    tcbs.set recvr.toNat (tcbWakeFromIpc (tcbs.threads recvr.toNat)).2
  else tcbs

/-- `endpoint_send` on a non-null endpoint and message. -/
def endpointSend (tcbs : TcbTable) (ep : Endpoint) (sender : UInt32) (msg : IpcMsg) :
    KError × TcbTable × Endpoint :=
  if msg.length > ipcMsgMax then (.invalidArg, tcbs, ep)
  else if msg.caps > ipcCapsMax then (.invalidArg, tcbs, ep)
  else if ep.hasReceiver then
    (.ok, wakeReceiver tcbs ep.receiverTcb,
      { ep with pendingMsg := msg, pending := true, hasReceiver := false })
  else if ep.qLen ≥ 16 then (.overflow, tcbs, ep)
  else
    (.ok, tcbs,
      { ep with
        queue := Function.update ep.queue ep.qTail.toNat sender
        queueMsgs := Function.update ep.queueMsgs ep.qTail.toNat msg
        qTail := (ep.qTail + 1) % 16
        qLen := ep.qLen + 1
        pendingMsg := msg
        pending := true })

/-- The wake-up of a sender found at the head of the queue. -/
def wakeSender (tcbs : TcbTable) (sender : UInt32) : TcbTable :=
  if sender < maxTcbs then
    if (tcbs.threads sender.toNat).state = .blockedSend then
      tcbs.set sender.toNat (tcbResume (tcbs.threads sender.toNat))
    else tcbs
  else tcbs

/-- `endpoint_recv` on a non-null endpoint and buffer; the option is what the
call stored through `out`, and `none` means that the receiver was registered
instead. -/
def endpointRecv (tcbs : TcbTable) (ep : Endpoint) (receiver : UInt32) :
    KError × Option IpcMsg × TcbTable × Endpoint :=
  if ep.qLen > 0 then
    let head := (ep.qHead + 1) % 16
    let len := ep.qLen - 1
    let ep' : Endpoint :=
      if len = 0 then { ep with qHead := head, qLen := len, pending := false }
      else { ep with qHead := head, qLen := len, pendingMsg := ep.queueMsgs head.toNat }
    (.ok, some (ep.queueMsgs ep.qHead.toNat), wakeSender tcbs (ep.queue ep.qHead.toNat), ep')
  else if ep.pending then
    (.ok, some ep.pendingMsg, tcbs, { ep with pending := false, hasReceiver := false })
  else (.ok, none, tcbs, { ep with hasReceiver := true, receiverTcb := receiver })

/-! ### What one call can do -/

theorem wakeReceiver_kept (tcbs : TcbTable) (recvr : UInt32) (j : Nat) :
    Tcb.IpcKept (tcbs.threads j) ((wakeReceiver tcbs recvr).threads j) := by
  unfold wakeReceiver
  split_ifs
  · exact TcbTable.set_kept (tcbWakeFromIpc_kept _) j
  · exact Tcb.IpcKept.refl _

theorem wakeSender_kept (tcbs : TcbTable) (sender : UInt32) (j : Nat) :
    Tcb.IpcKept (tcbs.threads j) ((wakeSender tcbs sender).threads j) := by
  unfold wakeSender
  split_ifs
  · exact TcbTable.set_kept (tcbResume_kept _) j
  · exact Tcb.IpcKept.refl _
  · exact Tcb.IpcKept.refl _

/-- The two length fields `endpoint_send` checks. -/
def MsgFits (msg : IpcMsg) : Prop := msg.length ≤ ipcMsgMax ∧ msg.caps ≤ ipcCapsMax

theorem endpointSend_cases (tcbs : TcbTable) (ep : Endpoint) (sender : UInt32) (msg : IpcMsg) :
    (¬ MsgFits msg ∧ endpointSend tcbs ep sender msg = (.invalidArg, tcbs, ep)) ∨
    (MsgFits msg ∧ ep.hasReceiver = true ∧ endpointSend tcbs ep sender msg =
      (.ok, wakeReceiver tcbs ep.receiverTcb,
        { ep with pendingMsg := msg, pending := true, hasReceiver := false })) ∨
    (MsgFits msg ∧ ep.hasReceiver = false ∧ 16 ≤ ep.qLen ∧
      endpointSend tcbs ep sender msg = (.overflow, tcbs, ep)) ∨
    (MsgFits msg ∧ ep.hasReceiver = false ∧ ep.qLen < 16 ∧ endpointSend tcbs ep sender msg =
      (.ok, tcbs,
        { ep with
          queue := Function.update ep.queue ep.qTail.toNat sender
          queueMsgs := Function.update ep.queueMsgs ep.qTail.toNat msg
          qTail := (ep.qTail + 1) % 16
          qLen := ep.qLen + 1
          pendingMsg := msg
          pending := true })) := by
  unfold endpointSend
  by_cases hl : msg.length > ipcMsgMax
  · exact Or.inl ⟨fun h => UInt32.not_le.mpr hl h.1, by simp [hl]⟩
  by_cases hc : msg.caps > ipcCapsMax
  · exact Or.inl ⟨fun h => UInt32.not_le.mpr hc h.2, by simp [hl, hc]⟩
  have hfits : MsgFits msg := ⟨UInt32.not_lt.mp hl, UInt32.not_lt.mp hc⟩
  by_cases hr : ep.hasReceiver = true
  · exact Or.inr (Or.inl ⟨hfits, hr, by simp [hl, hc, hr]⟩)
  have hr' : ep.hasReceiver = false := by simpa using hr
  by_cases hq : ep.qLen ≥ 16
  · exact Or.inr (Or.inr (Or.inl ⟨hfits, hr', hq, by simp [hl, hc, hr', hq]⟩))
  · exact Or.inr (Or.inr (Or.inr ⟨hfits, hr', UInt8.not_le.mp hq, by simp [hl, hc, hr', hq]⟩))

theorem endpointRecv_cases (tcbs : TcbTable) (ep : Endpoint) (receiver : UInt32) :
    (0 < ep.qLen ∧ ∃ ep', endpointRecv tcbs ep receiver =
        (.ok, some (ep.queueMsgs ep.qHead.toNat),
          wakeSender tcbs (ep.queue ep.qHead.toNat), ep') ∧
      ep'.queue = ep.queue ∧ ep'.queueMsgs = ep.queueMsgs ∧ ep'.qTail = ep.qTail ∧
      ep'.qHead = (ep.qHead + 1) % 16 ∧ ep'.qLen = ep.qLen - 1 ∧
      ep'.hasReceiver = ep.hasReceiver ∧ (ep'.qLen = 0 → ep'.pending = false) ∧
      (ep'.pending = true → ep.pending = true)) ∨
    (ep.qLen = 0 ∧ ep.pending = true ∧ endpointRecv tcbs ep receiver =
      (.ok, some ep.pendingMsg, tcbs, { ep with pending := false, hasReceiver := false })) ∨
    (ep.qLen = 0 ∧ ep.pending = false ∧ endpointRecv tcbs ep receiver =
      (.ok, none, tcbs, { ep with hasReceiver := true, receiverTcb := receiver })) := by
  unfold endpointRecv
  by_cases hq : ep.qLen > 0
  · refine Or.inl ⟨hq, ?_⟩
    simp only [hq, if_true]
    by_cases hz : ep.qLen - 1 = 0
    · simp [hz]
    · simp [hz]
  · have hz : ep.qLen = 0 := UInt8.le_zero_iff.mp (UInt8.not_lt.mp hq)
    by_cases hp : ep.pending = true
    · exact Or.inr (Or.inl ⟨hz, hp, by simp [hq, hp]⟩)
    · exact Or.inr (Or.inr ⟨hz, by simpa using hp, by simp [hq, hp]⟩)

/-! ### The ring behind the queue -/

namespace Endpoint

/-- `(i + 1) % 16` on a byte index; the byte addition wraps at a multiple of 16. -/
theorem toNat_next (i : UInt8) : ((i + 1) % 16).toNat = (i.toNat + 1) % 16 := by
  rw [UInt8.toNat_mod, UInt8.toNat_add]
  show (i.toNat + 1) % 256 % 16 = _
  omega

theorem toNat_pred {n : UInt8} (h : 0 < n) : (n - 1).toNat = n.toNat - 1 :=
  UInt8.toNat_sub_of_le _ _ (UInt8.le_iff_toNat_le.mpr (UInt8.lt_iff_toNat_lt.mp h))

theorem toNat_succ {n : UInt8} (h : n < 16) : (n + 1).toNat = n.toNat + 1 := by
  have hlt : n.toNat < 16 := UInt8.lt_iff_toNat_lt.mp h
  rw [UInt8.toNat_add]
  show (n.toNat + 1) % 256 = _
  omega

theorem zero_wellFormed : zero.WellFormed :=
  { head_lt := by decide, len_le := by decide, tail_eq := by decide,
    receiver := fun h => by cases h }

theorem entries_eq_nil {ep : Endpoint} (h : ep.qLen = 0) : ep.entries = [] := by
  simp [entries, h]

theorem WellFormed.tail_push {ep : Endpoint} (h : ep.WellFormed) (hq : ep.qLen < 16) :
    ((ep.qTail + 1) % 16).toNat = (ep.qHead.toNat + (ep.qLen + 1).toNat) % 16 := by
  have htail := h.tail_eq
  rw [toNat_next, toNat_succ hq]
  omega

theorem WellFormed.entries_push {ep : Endpoint} (h : ep.WellFormed) (hq : ep.qLen < 16)
    (sender : UInt32) (msg : IpcMsg) :
    Ring.contents 16
        (fun i => (Function.update ep.queue ep.qTail.toNat sender i,
          Function.update ep.queueMsgs ep.qTail.toNat msg i))
        ep.qHead.toNat (ep.qLen + 1).toNat =
      ep.entries ++ [(sender, msg)] := by
  have hlen : ep.qLen.toNat < 16 := UInt8.lt_iff_toNat_lt.mp hq
  have hcells : (fun i => (Function.update ep.queue ep.qTail.toNat sender i,
      Function.update ep.queueMsgs ep.qTail.toNat msg i)) =
      Function.update (fun i => (ep.queue i, ep.queueMsgs i))
        ((ep.qHead.toNat + ep.qLen.toNat) % 16) (sender, msg) := by
    rw [← h.tail_eq]
    funext i
    by_cases hi : i = ep.qTail.toNat
    · subst hi
      simp
    · simp [Function.update_of_ne hi]
  rw [toNat_succ hq, hcells]
  exact Ring.contents_push hlen _ _ _

/-- A non-empty queue splits into its head slot and the ring behind it. -/
theorem WellFormed.entries_pop {ep : Endpoint} (h : ep.WellFormed) (hq : 0 < ep.qLen) :
    ep.entries = (ep.queue ep.qHead.toNat, ep.queueMsgs ep.qHead.toNat) ::
      Ring.contents 16 (fun i => (ep.queue i, ep.queueMsgs i))
        ((ep.qHead + 1) % 16).toNat (ep.qLen - 1).toNat := by
  have hpos : 0 < ep.qLen.toNat := UInt8.lt_iff_toNat_lt.mp hq
  have hpop := Ring.contents_pop 16 (fun i => (ep.queue i, ep.queueMsgs i)) ep.qHead.toNat
    (ep.qLen.toNat - 1)
  rw [Nat.sub_add_cancel hpos, Nat.mod_eq_of_lt h.head_lt] at hpop
  rw [toNat_pred hq, toNat_next]
  exact hpop

end Endpoint

theorem endpointSend_wellFormed {tcbs tcbs' : TcbTable} {ep ep' : Endpoint} {sender : UInt32}
    {msg : IpcMsg} {e : KError} (hwf : ep.WellFormed)
    (h : endpointSend tcbs ep sender msg = (e, tcbs', ep')) : ep'.WellFormed := by
  rcases endpointSend_cases tcbs ep sender msg with
    ⟨-, heq⟩ | ⟨-, hr, heq⟩ | ⟨-, -, -, heq⟩ | ⟨-, hr, hq, heq⟩
  all_goals
    rw [h, Prod.mk.injEq, Prod.mk.injEq] at heq
    obtain ⟨-, -, rfl⟩ := heq
  · exact hwf
  · exact { head_lt := hwf.head_lt, len_le := hwf.len_le, tail_eq := hwf.tail_eq,
            receiver := fun hf => by cases hf }
  · exact hwf
  · have hlen : ep.qLen.toNat < 16 := UInt8.lt_iff_toNat_lt.mp hq
    refine { head_lt := hwf.head_lt, len_le := ?_, tail_eq := hwf.tail_push hq,
             receiver := fun hf => ?_ }
    · rw [Endpoint.toNat_succ hq]
      omega
    · simp only at hf
      rw [hr] at hf
      cases hf

theorem endpointRecv_wellFormed {tcbs tcbs' : TcbTable} {ep ep' : Endpoint} {receiver : UInt32}
    {out : Option IpcMsg} {e : KError} (hwf : ep.WellFormed)
    (h : endpointRecv tcbs ep receiver = (e, out, tcbs', ep')) : ep'.WellFormed := by
  rcases endpointRecv_cases tcbs ep receiver with
    ⟨hq, ep₁, heq, hqu, hqm, ht, hh, hl, hr, -, -⟩ | ⟨hz, -, heq⟩ | ⟨hz, hp, heq⟩
  all_goals
    rw [h, Prod.mk.injEq, Prod.mk.injEq, Prod.mk.injEq] at heq
    obtain ⟨-, -, -, rfl⟩ := heq
  · have hpos : 0 < ep.qLen.toNat := UInt8.lt_iff_toNat_lt.mp hq
    have hlen := hwf.len_le
    have htail := hwf.tail_eq
    refine { head_lt := ?_, len_le := ?_, tail_eq := ?_, receiver := fun hf => ?_ }
    · rw [hh, Endpoint.toNat_next]
      omega
    · rw [hl, Endpoint.toNat_pred hq]
      omega
    · rw [ht, hh, hl, Endpoint.toNat_next, Endpoint.toNat_pred hq]
      omega
    · -- A queue and a registered receiver exclude each other.
      rw [hr] at hf
      rw [(hwf.receiver hf).1] at hpos
      exact absurd hpos (by decide)
  · exact { head_lt := hwf.head_lt, len_le := hwf.len_le, tail_eq := hwf.tail_eq,
            receiver := fun hf => by cases hf }
  · exact { head_lt := hwf.head_lt, len_le := hwf.len_le, tail_eq := hwf.tail_eq,
            receiver := fun _ => ⟨hz, hp⟩ }

end Moonlight
