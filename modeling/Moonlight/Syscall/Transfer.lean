/-
One message from a sender to a receiver through the dispatcher.

`SYS_SEND` fills a stack message from the sender's IPC buffer, without its label.
`SYS_REPLY_RECV` copies the words and the length of a message that waits for it,
and nothing else.  A receiver that came first is woken when the message arrives,
but no code copies the message into its buffer.
-/
import Moonlight.Syscall.Boot
import Moonlight.Syscall.Handler

namespace Moonlight

/-- One trap: the frame, the thread it came from and the two clock readings. -/
structure Trap where
  frame : TrapFrame
  cur : UInt32
  entry : UInt64
  now : UInt64

/-- The state after a trap that returns `ERR_OK`. -/
def Trap.next (k : Kernel) (t : Trap) : Option Kernel :=
  match syscallHandler k t.frame t.cur t.entry t.now with
  | some (.ok, _, k') => some k'
  | _ => none

def Kernel.ipcBuffer (k : Kernel) (cur : UInt32) : IpcMsg := (k.tcbs.threads cur.toNat).ipcBuffer

/-- The thread's CSpace has a capability for this endpoint under the trap's
capability pointer. -/
def Trap.Names (k : Kernel) (t : Trap) (ep : UInt64) : Prop :=
  ∃ cap, cspaceLookup k (k.tcbs.threads t.cur.toNat) t.frame.a0.toUInt32 = some cap ∧
    cap.u.epPtr = ep

/-- Nothing stored and nobody waiting. -/
structure Endpoint.Idle (ep : Endpoint) : Prop where
  wellFormed : ep.WellFormed
  empty : ep.qLen = 0
  noMessage : ep.pending = false
  noReceiver : ep.hasReceiver = false

inductive IpcOrder where
  | sendFirst
  | recvFirst

/-- Both traps in the given order, each returning `ERR_OK`. -/
def transfer (k : Kernel) (send recv : Trap) : IpcOrder → Option Kernel
  | .sendFirst => (send.next k).bind recv.next
  | .recvFirst => (recv.next k).bind send.next

/-- A send and a receive on one idle endpoint that both succeed and leave the
receiver runnable. -/
structure Exchange (order : IpcOrder) (k : Kernel) (send recv : Trap) (ep : UInt64)
    (k' : Kernel) : Prop where
  sendNumber : Syscall.ofWord send.frame.a7 = some .send
  recvNumber : Syscall.ofWord recv.frame.a7 = some .replyRecv
  length : (send.frame.a1 &&& 0xFF).toUInt32 = (k.ipcBuffer send.cur).length
  length_le : (k.ipcBuffer send.cur).length ≤ ipcMsgMax
  caps_le : (k.ipcBuffer send.cur).caps ≤ ipcCapsMax
  sendNames : send.Names k ep
  recvNames : recv.Names k ep
  idle : (k.endpoints ep).Idle
  calls : transfer k send recv order = some k'
  runnable : tcbIsRunnable (k'.tcbs.threads recv.cur.toNat) = true

/-- The label and the capabilities of the two messages agree. -/
structure SameHeader (src dst : IpcMsg) : Prop where
  label : dst.label = src.label
  caps : dst.caps = src.caps
  capPtrs : ∀ i, i < src.caps.toNat → dst.capPtrs i = src.capPtrs i

/-- The receiver's buffer has the whole message. -/
structure Delivered (src dst : IpcMsg) : Prop extends SameHeader src dst where
  length : dst.length = src.length
  words : ∀ i, i < src.length.toNat → dst.words i = src.words i

/-- What the receiver's buffer must hold before the exchange. -/
def Prefilled : IpcOrder → IpcMsg → IpcMsg → Prop
  | .sendFirst => SameHeader
  | .recvFirst => Delivered

/-! ### What the two syscalls keep -/

/-- No CNode changes, and every thread keeps its buffer and its CSpace. -/
structure Kernel.IpcKept (k k' : Kernel) : Prop where
  cnodes : k'.cnodes = k.cnodes
  threads : ∀ j, Tcb.IpcKept (k.tcbs.threads j) (k'.tcbs.threads j)

theorem Kernel.IpcKept.names {k k' : Kernel} (h : k.IpcKept k') {t : Trap} {ep : UInt64}
    (hn : t.Names k ep) : t.Names k' ep := by
  obtain ⟨cap, hlook, hep⟩ := hn
  refine ⟨cap, ?_, hep⟩
  rw [cspaceLookup, (h.threads _).cspace, h.cnodes]
  exact hlook

theorem Kernel.IpcKept.ipcBuffer {k k' : Kernel} (h : k.IpcKept k') (cur : UInt32) :
    k'.ipcBuffer cur = k.ipcBuffer cur := (h.threads _).ipcBuffer

/-! ### A trap that succeeds -/

/-- A trap that names an endpoint and succeeds is the switch at that capability. -/
theorem Trap.next_some {k k' : Kernel} {t : Trap} {sys : Syscall} {ep : UInt64}
    (hsys : Syscall.ofWord t.frame.a7 = some sys) (hn : t.Names k ep)
    (h : t.next k = some k') :
    ∃ cap, cap.u.epPtr = ep ∧ dispatch k t.frame t.cur sys (some cap) = .done .ok k' := by
  obtain ⟨cap, hlook, hep⟩ := hn
  have hcap : ∀ sys', invokedCap k (k.tcbs.threads t.cur.toNat) sys' t.frame = some cap := by
    intro sys'
    rw [invokedCap, hlook]
  obtain ⟨f', hok⟩ :
      ∃ f', syscallHandler k t.frame t.cur t.entry t.now = some (.ok, f', k') := by
    unfold Trap.next at h
    split at h
    · next f' k'' heq =>
      cases h
      exact ⟨f', heq⟩
    · cases h
  obtain ⟨sys', hadm, hdone⟩ := syscallHandler_ok hok
  obtain rfl : sys' = sys := Option.some.inj (hadm.number.symm.trans hsys)
  rw [hcap] at hdone
  exact ⟨cap, hep, hdone⟩

/-! ### The send -/

/-- The stack message of `SYS_SEND` for a buffer within its bounds. -/
def sentMsg (buffer : IpcMsg) (length : UInt32) : IpcMsg :=
  { label := 0, length := length, caps := buffer.caps
    words := fun i => if i < length.toNat then buffer.words i else 0
    capPtrs := fun i => if i < buffer.caps.toNat then buffer.capPtrs i else 0 }

theorem sysSend_ok {k k' : Kernel} {cur : UInt32} {cap : Cap} {arg1 : UInt64}
    (hlen : (arg1 &&& 0xFF).toUInt32 ≤ ipcMsgMax) (hcaps : (k.ipcBuffer cur).caps ≤ ipcCapsMax)
    (h : sysSend k cur cap arg1 = .done .ok k') :
    endpointSendAt k cap.u.epPtr cur (sentMsg (k.ipcBuffer cur) (arg1 &&& 0xFF).toUInt32) =
      (.ok, k') := by
  have hwords := copyLoop_eq (UInt32.le_iff_toNat_le.mp hlen) (k.ipcBuffer cur).words fun _ => 0
  have hptrs := copyLoop_eq (UInt32.le_iff_toNat_le.mp hcaps) (k.ipcBuffer cur).capPtrs
    fun _ => 0
  unfold Kernel.ipcBuffer at hwords hptrs
  simp only [sysSend, UInt32.not_lt.mpr hlen, if_false, hwords, hptrs] at h
  split_ifs at h
  obtain ⟨hok, rfl⟩ := Outcome.done.inj h
  exact Prod.ext hok rfl

theorem endpointSendAt_kept {k k' : Kernel} {ep : UInt64} {cur : UInt32} {msg : IpcMsg}
    {e : KError} (h : endpointSendAt k ep cur msg = (e, k')) : k.IpcKept k' := by
  unfold endpointSendAt at h
  split_ifs at h
  · cases h
    exact ⟨rfl, fun j => Tcb.IpcKept.refl _⟩
  · obtain ⟨-, rfl⟩ := Prod.mk.inj h
    refine ⟨rfl, fun j => ?_⟩
    rcases endpointSend_cases k.tcbs (k.endpoints ep) cur msg with
      ⟨-, heq⟩ | ⟨-, -, heq⟩ | ⟨-, -, -, heq⟩ | ⟨-, -, -, heq⟩
    · rw [heq]
      exact Tcb.IpcKept.refl _
    · rw [heq]
      exact wakeReceiver_kept _ _ j
    · rw [heq]
      exact Tcb.IpcKept.refl _
    · rw [heq]
      exact Tcb.IpcKept.refl _

/-- On an idle endpoint the message goes to the head of the queue. -/
theorem endpointSendAt_idle {k k' : Kernel} {ep : UInt64} {cur : UInt32} {msg : IpcMsg}
    (hidle : (k.endpoints ep).Idle) (h : endpointSendAt k ep cur msg = (.ok, k')) :
    MsgFits msg ∧ (k'.endpoints ep).qLen = 1 ∧
      (k'.endpoints ep).queueMsgs (k'.endpoints ep).qHead.toNat = msg := by
  have htail : (k.endpoints ep).qTail.toNat = (k.endpoints ep).qHead.toNat := by
    have hhead := hidle.wellFormed.head_lt
    rw [hidle.wellFormed.tail_eq, hidle.empty]
    exact Nat.mod_eq_of_lt hhead
  simp only [endpointSendAt] at h
  split_ifs at h
  · cases h
  obtain ⟨hok, rfl⟩ := Prod.mk.inj h
  simp only [Function.update_self]
  rcases endpointSend_cases k.tcbs (k.endpoints ep) cur msg with
    ⟨-, heq⟩ | ⟨-, hrecv, -⟩ | ⟨-, -, -, heq⟩ | ⟨hfits, -, -, heq⟩
  · rw [heq] at hok
    cases hok
  · rw [hidle.noReceiver] at hrecv
    cases hrecv
  · rw [heq] at hok
    cases hok
  · simp only [heq]
    refine ⟨hfits, ?_, ?_⟩
    · rw [hidle.empty]
      rfl
    · rw [htail, Function.update_self]

/-! ### The receive -/

/-- The receiver's buffer after the copy loop. -/
def received (buffer msg : IpcMsg) : IpcMsg :=
  { buffer with
    length := msg.length
    words := fun i => if i < msg.length.toNat then msg.words i else buffer.words i }

theorem received_sentMsg (buffer src : IpcMsg) :
    received buffer (sentMsg src src.length) = received buffer src := by
  have hwords : ∀ i, (if i < src.length.toNat then (sentMsg src src.length).words i
      else buffer.words i) = if i < src.length.toNat then src.words i else buffer.words i := by
    intro i
    by_cases hi : i < src.length.toNat
    · simp only [sentMsg, hi, if_true]
    · simp only [hi, if_false]
  unfold received
  exact congrArg (fun words => { buffer with length := src.length, words := words })
    (funext hwords)

theorem sysReplyRecv_ok {k k' : Kernel} {cur : UInt32} {cap : Cap}
    (h : sysReplyRecv k cur cap = .done .ok k') : cap.type = .endpoint ∧ cap.u.epPtr ≠ 0 := by
  unfold sysReplyRecv at h
  by_cases htype : cap.type = .endpoint
  · refine ⟨htype, fun hzero => ?_⟩
    simp [htype, endpointRecvAt, hzero] at h
  · rw [if_pos htype] at h
    cases h

theorem endpointRecvAt_eq {k : Kernel} {ep : UInt64} {cur : UInt32} {e : KError}
    {out : Option IpcMsg} {tcbs' : TcbTable} {ep' : Endpoint} (hep : ep ≠ 0)
    (h : endpointRecv k.tcbs (k.endpoints ep) cur = (e, out, tcbs', ep')) :
    endpointRecvAt k ep cur =
      (e, out, { k with tcbs := tcbs', endpoints := Function.update k.endpoints ep ep' }) := by
  simp only [endpointRecvAt, hep, if_false, h]

theorem sysReplyRecv_delivers {k k₁ : Kernel} {cur : UInt32} {cap : Cap} {msg : IpcMsg}
    (htype : cap.type = .endpoint) (hq : 0 < (k.endpoints cap.u.epPtr).qLen)
    (hfits : MsgFits msg) (hr : endpointRecvAt k cap.u.epPtr cur = (.ok, some msg, k₁)) :
    sysReplyRecv k cur cap = .done .ok (k₁.setThread cur
      { k₁.tcbs.threads cur.toNat with ipcBuffer := received (k₁.ipcBuffer cur) msg }) := by
  have hwords := copyLoop_eq (UInt32.le_iff_toNat_le.mp hfits.1) msg.words
    (k₁.tcbs.threads cur.toNat).ipcBuffer.words
  unfold sysReplyRecv
  rw [if_neg (not_not.mpr htype)]
  simp only [hr, hq, or_true, and_self, if_true, hwords]
  rfl

theorem sysReplyRecv_blocks {k k₁ : Kernel} {cur : UInt32} {cap : Cap}
    (htype : cap.type = .endpoint) (hidle : (k.endpoints cap.u.epPtr).Idle)
    (hr : endpointRecvAt k cap.u.epPtr cur = (.ok, none, k₁)) :
    sysReplyRecv k cur cap = .done .ok (k₁.setThread cur
      { k₁.tcbs.threads cur.toNat with state := .blockedRecv }) := by
  unfold sysReplyRecv
  rw [if_neg (not_not.mpr htype)]
  simp [hr, hidle.empty, hidle.noMessage]

/-- A receive that finds one queued message copies its words and its length. -/
theorem sysReplyRecv_queued {k k' : Kernel} {cur : UInt32} {cap : Cap} {msg : IpcMsg}
    (hq : (k.endpoints cap.u.epPtr).qLen = 1)
    (hmsg : (k.endpoints cap.u.epPtr).queueMsgs (k.endpoints cap.u.epPtr).qHead.toNat = msg)
    (hfits : MsgFits msg) (h : sysReplyRecv k cur cap = .done .ok k') :
    k'.ipcBuffer cur = received (k.ipcBuffer cur) msg := by
  obtain ⟨htype, hep⟩ := sysReplyRecv_ok h
  have hpos : 0 < (k.endpoints cap.u.epPtr).qLen := by
    rw [hq]
    decide
  rcases endpointRecv_cases k.tcbs (k.endpoints cap.u.epPtr) cur with
    ⟨-, ep', heq, -⟩ | ⟨hz, -⟩ | ⟨hz, -⟩
  · rw [hmsg] at heq
    rw [sysReplyRecv_delivers htype hpos hfits (endpointRecvAt_eq hep heq)] at h
    obtain ⟨-, rfl⟩ := Outcome.done.inj h
    have hkept := wakeSender_kept k.tcbs
      ((k.endpoints cap.u.epPtr).queue (k.endpoints cap.u.epPtr).qHead.toNat) cur.toNat
    simp only [Kernel.ipcBuffer, Kernel.setThread, TcbTable.set_self, hkept.ipcBuffer]
  · rw [hz] at hq
    exact absurd hq (by decide)
  · rw [hz] at hq
    exact absurd hq (by decide)

/-- On an idle endpoint the receiver is registered and blocked. -/
theorem sysReplyRecv_idle {k k' : Kernel} {cur : UInt32} {cap : Cap}
    (hidle : (k.endpoints cap.u.epPtr).Idle) (h : sysReplyRecv k cur cap = .done .ok k') :
    k.IpcKept k' := by
  obtain ⟨htype, hep⟩ := sysReplyRecv_ok h
  rcases endpointRecv_cases k.tcbs (k.endpoints cap.u.epPtr) cur with
    ⟨hpos, -⟩ | ⟨-, hp, -⟩ | ⟨-, -, heq⟩
  · rw [hidle.empty] at hpos
    exact absurd hpos (by decide)
  · rw [hidle.noMessage] at hp
    cases hp
  · rw [sysReplyRecv_blocks htype hidle (endpointRecvAt_eq hep heq)] at h
    obtain ⟨-, rfl⟩ := Outcome.done.inj h
    refine ⟨rfl, ?_⟩
    exact TcbTable.set_kept ⟨rfl, rfl⟩

/-! ### The exchange -/

variable {k k' : Kernel} {send recv : Trap} {ep : UInt64}

theorem Exchange.length_word_le {order : IpcOrder} (h : Exchange order k send recv ep k') :
    (send.frame.a1 &&& 0xFF).toUInt32 ≤ ipcMsgMax := by
  rw [h.length]
  exact h.length_le

/-- The queued path: of the receiver's buffer only the words and the length
change. -/
theorem Exchange.sendFirst (h : Exchange .sendFirst k send recv ep k') :
    k'.ipcBuffer recv.cur = received (k.ipcBuffer recv.cur) (k.ipcBuffer send.cur) := by
  obtain ⟨k₁, hsend, hrecv⟩ := Option.bind_eq_some_iff.mp h.calls
  obtain ⟨cs, rfl, hdone⟩ := Trap.next_some h.sendNumber h.sendNames hsend
  have hsent := sysSend_ok h.length_word_le h.caps_le hdone
  have hkept := endpointSendAt_kept hsent
  obtain ⟨hfits, hq, hmsg⟩ := endpointSendAt_idle h.idle hsent
  obtain ⟨cr, hcr, hdone'⟩ := Trap.next_some h.recvNumber (hkept.names h.recvNames) hrecv
  rw [← hcr] at hq hmsg
  have hgot := sysReplyRecv_queued hq hmsg hfits hdone'
  rw [hgot, hkept.ipcBuffer, h.length, received_sentMsg]

/-- The rendezvous path: nothing of the receiver's buffer changes. -/
theorem Exchange.recvFirst (h : Exchange .recvFirst k send recv ep k') :
    k'.ipcBuffer recv.cur = k.ipcBuffer recv.cur := by
  obtain ⟨k₁, hrecv, hsend⟩ := Option.bind_eq_some_iff.mp h.calls
  obtain ⟨cr, rfl, hdone⟩ := Trap.next_some h.recvNumber h.recvNames hrecv
  have hkept := sysReplyRecv_idle h.idle hdone
  obtain ⟨cs, -, hdone'⟩ := Trap.next_some h.sendNumber (hkept.names h.sendNames) hsend
  have hcaps : (k₁.ipcBuffer send.cur).caps ≤ ipcCapsMax := by
    rw [hkept.ipcBuffer]
    exact h.caps_le
  have hsent := sysSend_ok h.length_word_le hcaps hdone'
  rw [(endpointSendAt_kept hsent).ipcBuffer, hkept.ipcBuffer]

/-- The receiver ends up with the whole message if and only if its buffer held
the label and the capabilities before, and, when it came first, the words and
the length too. -/
theorem exchange_delivers_iff {order : IpcOrder} (h : Exchange order k send recv ep k') :
    Delivered (k.ipcBuffer send.cur) (k'.ipcBuffer recv.cur) ↔
      Prefilled order (k.ipcBuffer send.cur) (k.ipcBuffer recv.cur) := by
  cases order with
  | sendFirst =>
    rw [h.sendFirst]
    constructor
    · intro hd
      exact ⟨hd.label, hd.caps, hd.capPtrs⟩
    · intro hs
      exact { label := hs.label, caps := hs.caps, capPtrs := hs.capPtrs, length := rfl,
              words := fun i hi => if_pos hi }
  | recvFirst =>
    rw [h.recvFirst]
    rfl

/-- The message of `test_ipc_trap.c`, under a label. -/
def trapTestMsg (label : UInt32) : IpcMsg :=
  { IpcMsg.zero with
    label := label
    length := 2
    words := fun i => if i = 0 then 0xCAFE else if i = 1 then 0xBEEF else 0 }

/-- A booted kernel whose first two threads run on the root CNode, the first with
a message to send. -/
def trapTestKernel (label : UInt32) : Kernel :=
  let k := bootKernel plainBoot
  let sender := tcbResume (tcbConfigure (k.tcbs.threads 0) .root 0 0 0)
  let receiver := tcbResume (tcbConfigure (k.tcbs.threads 1) .root 0 0 0)
  (k.setThread 0 { sender with ipcBuffer := trapTestMsg label }).setThread 1 receiver

/-- The two words go to the endpoint that slot 11 of the root CNode names. -/
def trapTestSend : Trap :=
  { frame := { a0 := 11, a1 := 2, a2 := 0, a3 := 0, a7 := 2 }, cur := 0, entry := 0, now := 0 }

def trapTestRecv : Trap :=
  { frame := { a0 := 11, a1 := 0, a2 := 0, a3 := 0, a7 := 1 }, cur := 1, entry := 0, now := 0 }

theorem trapTest_calls (order : IpcOrder) {label : UInt32} (h : label = 0 ∨ label = 7) :
    (transfer (trapTestKernel label) trapTestSend trapTestRecv order).map
      (fun k' => (tcbIsRunnable (k'.tcbs.threads 1), (k'.ipcBuffer 1).label)) =
        some (true, 0) := by
  rcases h with rfl | rfl
  · cases order with
    | sendFirst => decide +kernel
    | recvFirst => decide +kernel
  · cases order with
    | sendFirst => decide +kernel
    | recvFirst => decide +kernel

theorem bootEndpoint_idle :
    ((bootKernel plainBoot).endpoints (endpointAddr plainBoot 1)).Idle :=
  { wellFormed :=
      { head_lt := by decide +kernel, len_le := by decide +kernel, tail_eq := by decide +kernel,
        receiver := by decide +kernel }
    empty := by decide +kernel
    noMessage := by decide +kernel
    noReceiver := by decide +kernel }

theorem bootKernel_slot_eleven :
    cnodeLookup (bootKernel plainBoot).root 11 = some (endpointCap plainBoot 1) := by
  decide +kernel

/-- The two threads of the test meet the conditions of an exchange in either
order. -/
theorem trapTest_exchange (order : IpcOrder) {label : UInt32} (h : label = 0 ∨ label = 7) :
    ∃ k', Exchange order (trapTestKernel label) trapTestSend trapTestRecv
        (endpointAddr plainBoot 1) k' ∧ (k'.ipcBuffer 1).label = 0 := by
  obtain ⟨k', hcalls, hres⟩ := Option.map_eq_some_iff.mp (trapTest_calls order h)
  obtain ⟨hrun, hlabel⟩ := Prod.mk.inj hres
  have hlength : (trapTestMsg label).length ≤ ipcMsgMax := show (2 : UInt32) ≤ 30 by decide
  have hcaps : (trapTestMsg label).caps ≤ ipcCapsMax := show (0 : UInt32) ≤ 3 by decide
  refine ⟨k', ?_, hlabel⟩
  exact
    { sendNumber := by decide
      recvNumber := by decide
      length := rfl
      length_le := hlength
      caps_le := hcaps
      sendNames := ⟨endpointCap plainBoot 1, bootKernel_slot_eleven, rfl⟩
      recvNames := ⟨endpointCap plainBoot 1, bootKernel_slot_eleven, rfl⟩
      idle := bootEndpoint_idle
      calls := hcalls
      runnable := hrun }

/-- With label zero the queued path delivers the test's message. -/
theorem exchange_delivers_unlabelled :
    ∃ k', Exchange .sendFirst (trapTestKernel 0) trapTestSend trapTestRecv
        (endpointAddr plainBoot 1) k' ∧
      Delivered ((trapTestKernel 0).ipcBuffer 0) (k'.ipcBuffer 1) := by
  obtain ⟨k', hex, -⟩ := trapTest_exchange .sendFirst (Or.inl rfl)
  have hprior : SameHeader ((trapTestKernel 0).ipcBuffer 0) ((trapTestKernel 0).ipcBuffer 1) :=
    { label := by decide +kernel, caps := by decide +kernel, capPtrs := by decide +kernel }
  exact ⟨k', hex, (exchange_delivers_iff hex).mpr hprior⟩

/-- Under label seven the receiver keeps label zero in either order. -/
theorem exchange_loses_label :
    (∃ k', Exchange .sendFirst (trapTestKernel 7) trapTestSend trapTestRecv
        (endpointAddr plainBoot 1) k' ∧
      ¬ Delivered ((trapTestKernel 7).ipcBuffer 0) (k'.ipcBuffer 1)) ∧
    ∃ k', Exchange .recvFirst (trapTestKernel 7) trapTestSend trapTestRecv
        (endpointAddr plainBoot 1) k' ∧
      ¬ Delivered ((trapTestKernel 7).ipcBuffer 0) (k'.ipcBuffer 1) := by
  have hlost : ∀ order, ∃ k', Exchange order (trapTestKernel 7) trapTestSend trapTestRecv
      (endpointAddr plainBoot 1) k' ∧
      ¬ Delivered ((trapTestKernel 7).ipcBuffer 0) (k'.ipcBuffer 1) := by
    intro order
    obtain ⟨k', hex, hlabel⟩ := trapTest_exchange order (Or.inr rfl)
    refine ⟨k', hex, fun hd => ?_⟩
    have hsame := hd.label
    rw [hlabel] at hsame
    exact absurd hsame (by decide +kernel)
  exact ⟨hlost .sendFirst, hlost .recvFirst⟩

end Moonlight
