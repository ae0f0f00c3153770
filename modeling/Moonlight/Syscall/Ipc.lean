/-
What the three IPC cases of the dispatcher do.

Each case runs its own checks and then calls `endpoint_send` or `endpoint_recv`.
The checks of `SYS_CALL` and of `SYS_SEND` are named here, together with the
message each builds; a receive is described by the message it finds.  Everything
after this module reasons about IPC syscalls through these lemmas.
-/
import Moonlight.Syscall.Transfer

namespace Moonlight

/-- `(uint32_t)(arg1 & 0xFF)`, the length an IPC syscall asks for. -/
def ipcLength (arg1 : UInt64) : UInt32 := (arg1 &&& 0xFF).toUInt32

/-! ### Sending through a pointer -/

/-- The conditions under which `endpoint_send` stores the message. -/
structure Accepts (k : Kernel) (ep : UInt64) (msg : IpcMsg) : Prop where
  ptr : ep ≠ 0
  fits : MsgFits msg
  room : (k.endpoints ep).hasReceiver = true ∨ (k.endpoints ep).qLen < 16

/-- The state after the rendezvous with a registered receiver. -/
def Kernel.rendezvous (k : Kernel) (ep : UInt64) (msg : IpcMsg) : Kernel :=
  { k with
    tcbs := wakeReceiver k.tcbs (k.endpoints ep).receiverTcb
    endpoints := Function.update k.endpoints ep
      { k.endpoints ep with pendingMsg := msg, pending := true, hasReceiver := false } }

/-- The state after the message went to the ring. -/
def Kernel.enqueue (k : Kernel) (ep : UInt64) (sender : UInt32) (msg : IpcMsg) : Kernel :=
  { k with
    endpoints := Function.update k.endpoints ep
      { k.endpoints ep with
        queue := Function.update (k.endpoints ep).queue (k.endpoints ep).qTail.toNat sender
        queueMsgs := Function.update (k.endpoints ep).queueMsgs (k.endpoints ep).qTail.toNat msg
        qTail := ((k.endpoints ep).qTail + 1) % 16
        qLen := (k.endpoints ep).qLen + 1
        pendingMsg := msg
        pending := true } }

theorem Kernel.endpoints_same (k : Kernel) (ep : UInt64) :
    { k with endpoints := Function.update k.endpoints ep (k.endpoints ep) } = k := by
  rw [Function.update_eq_self]

theorem endpointSendAt_cases (k : Kernel) (ep : UInt64) (sender : UInt32) (msg : IpcMsg) :
    (¬ Accepts k ep msg ∧ ∃ e, e ≠ .ok ∧ endpointSendAt k ep sender msg = (e, k)) ∨
    (Accepts k ep msg ∧ (k.endpoints ep).hasReceiver = true ∧
      endpointSendAt k ep sender msg = (.ok, k.rendezvous ep msg)) ∨
    (Accepts k ep msg ∧ (k.endpoints ep).hasReceiver = false ∧ (k.endpoints ep).qLen < 16 ∧
      endpointSendAt k ep sender msg = (.ok, k.enqueue ep sender msg)) := by
  unfold endpointSendAt
  by_cases hep : ep = 0
  · exact Or.inl ⟨fun h => h.ptr hep, .invalidArg, by decide, by rw [if_pos hep]⟩
  rw [if_neg hep]
  rcases endpointSend_cases k.tcbs (k.endpoints ep) sender msg with
    ⟨hfits, heq⟩ | ⟨hfits, hr, heq⟩ | ⟨hfits, hr, hq, heq⟩ | ⟨hfits, hr, hq, heq⟩
  · refine Or.inl ⟨fun h => hfits h.fits, .invalidArg, by decide, ?_⟩
    simp only [heq, k.endpoints_same]
  · refine Or.inr (Or.inl ⟨⟨hep, hfits, Or.inl hr⟩, hr, ?_⟩)
    simp only [heq, Kernel.rendezvous]
  · refine Or.inl ⟨fun h => ?_, .overflow, by decide, ?_⟩
    · rcases h.room with hr' | hq'
      · rw [hr] at hr'
        cases hr'
      · exact UInt8.not_le.mpr hq' hq
    · simp only [heq, k.endpoints_same]
  · refine Or.inr (Or.inr ⟨⟨hep, hfits, Or.inr hq⟩, hr, hq, ?_⟩)
    simp only [heq, Kernel.enqueue]

/-! ### `SYS_SEND` -/

/-- The checks `SYS_SEND` makes before it copies the message. -/
structure SendAllowed (cap : Cap) (arg1 : UInt64) : Prop where
  type : cap.type = .endpoint
  length : ipcLength arg1 ≤ ipcMsgMax

theorem sysSend_ret {cap : Cap} {arg1 : UInt64} (h : ¬ SendAllowed cap arg1) (k : Kernel)
    (cur : UInt32) :
    sysSend k cur cap arg1 = .ret (if cap.type = .endpoint then .invalidArg else .invalidCap) := by
  unfold sysSend
  by_cases htype : cap.type = .endpoint
  · have hlen : (arg1 &&& 0xFF).toUInt32 > ipcMsgMax :=
      UInt32.not_le.mp fun hle => h ⟨htype, hle⟩
    simp only [htype, ne_eq, not_true_eq_false, if_false, hlen, if_true]
  · simp [htype]

/-- The capability loop leaves its array exactly when the buffer counts more than
`IPC_CAPS_MAX` of them. -/
theorem sysSend_fault {cap : Cap} {arg1 : UInt64} (h : SendAllowed cap arg1) {k : Kernel}
    {cur : UInt32} (hcaps : ipcCapsMax < (k.ipcBuffer cur).caps) :
    sysSend k cur cap arg1 = .fault := by
  have hwords := copyLoop_eq (UInt32.le_iff_toNat_le.mp h.length) (k.ipcBuffer cur).words
    fun _ => 0
  have hptrs := copyLoop_eq_none (UInt32.lt_iff_toNat_lt.mp hcaps) (k.ipcBuffer cur).capPtrs
    fun _ => 0
  have hlen : ¬ (arg1 &&& 0xFF).toUInt32 > ipcMsgMax := UInt32.not_lt.mpr h.length
  unfold Kernel.ipcBuffer ipcLength at *
  unfold sysSend
  simp only [h.type, ne_eq, not_true_eq_false, if_false, hlen, hwords, hptrs]

theorem sysSend_done {cap : Cap} {arg1 : UInt64} (h : SendAllowed cap arg1) {k : Kernel}
    {cur : UInt32} (hcaps : (k.ipcBuffer cur).caps ≤ ipcCapsMax) :
    ∃ e k', endpointSendAt k cap.u.epPtr cur (sentMsg (k.ipcBuffer cur) (ipcLength arg1)) =
      (e, k') ∧ sysSend k cur cap arg1 = .done e k' := by
  have hwords := copyLoop_eq (UInt32.le_iff_toNat_le.mp h.length) (k.ipcBuffer cur).words
    fun _ => 0
  have hptrs := copyLoop_eq (UInt32.le_iff_toNat_le.mp hcaps) (k.ipcBuffer cur).capPtrs
    fun _ => 0
  have hlen : ¬ (arg1 &&& 0xFF).toUInt32 > ipcMsgMax := UInt32.not_lt.mpr h.length
  refine ⟨_, _, rfl, ?_⟩
  unfold Kernel.ipcBuffer ipcLength at *
  unfold sysSend
  simp only [h.type, ne_eq, not_true_eq_false, if_false, hlen, hwords, hptrs]
  rfl

/-! ### `SYS_CALL` -/

structure CallAllowed (cap : Cap) (arg1 : UInt64) : Prop extends SendAllowed cap arg1 where
  rights : capHasRight cap (capRightsRead ||| capRightsWrite) = true

/-- The stack message of `SYS_CALL`: words only. -/
def calledMsg (buffer : IpcMsg) (length : UInt32) : IpcMsg :=
  { IpcMsg.zero with
    length := length
    words := fun i => if i < length.toNat then buffer.words i else 0 }

/-- The caller waits for a reply once its message is stored. -/
def Kernel.awaitReply (k : Kernel) (cur : UInt32) : Kernel :=
  k.setThread cur { k.tcbs.threads cur.toNat with state := .blockedReply }

theorem sysCall_ret {cap : Cap} {arg1 : UInt64} (h : ¬ CallAllowed cap arg1) (k : Kernel)
    (cur : UInt32) :
    sysCall k cur cap arg1 =
      .ret (if capHasRight cap (capRightsRead ||| capRightsWrite) = true then
        if cap.type = .endpoint then .invalidArg else .invalidCap else .noRights) := by
  unfold sysCall
  by_cases hrights : capHasRight cap (capRightsRead ||| capRightsWrite) = true
  · by_cases htype : cap.type = .endpoint
    · have hlen : (arg1 &&& 0xFF).toUInt32 > ipcMsgMax :=
        UInt32.not_le.mp fun hle => h ⟨⟨htype, hle⟩, hrights⟩
      simp only [hrights, htype, ne_eq, not_true_eq_false, if_false, hlen, if_true]
    · simp [hrights, htype]
  · simp [hrights]

theorem sysCall_done {cap : Cap} {arg1 : UInt64} (h : CallAllowed cap arg1) (k : Kernel)
    (cur : UInt32) :
    ∃ e k', endpointSendAt k cap.u.epPtr cur (calledMsg (k.ipcBuffer cur) (ipcLength arg1)) =
      (e, k') ∧ sysCall k cur cap arg1 = .done e (if e = .ok then k'.awaitReply cur else k') := by
  have hwords := copyLoop_eq (UInt32.le_iff_toNat_le.mp h.length) (k.ipcBuffer cur).words
    fun _ => 0
  have hlen : ¬ (arg1 &&& 0xFF).toUInt32 > ipcMsgMax := UInt32.not_lt.mpr h.length
  have hmsg : { IpcMsg.zero with
      length := (arg1 &&& 0xFF).toUInt32
      words := fun i => if i < (arg1 &&& 0xFF).toUInt32.toNat then
        (k.tcbs.threads cur.toNat).ipcBuffer.words i else 0 } =
      calledMsg (k.ipcBuffer cur) (ipcLength arg1) := rfl
  unfold Kernel.ipcBuffer ipcLength at hwords
  unfold sysCall
  simp only [h.rights, h.type, ne_eq, not_true_eq_false, if_false, hlen, hwords, hmsg]
  generalize endpointSendAt k cap.u.epPtr cur (calledMsg (k.ipcBuffer cur) (ipcLength arg1)) = r
  refine ⟨r.1, r.2, rfl, ?_⟩
  by_cases hok : r.1 = .ok
  · rw [if_pos hok, if_pos hok]
    rfl
  · rw [if_neg hok, if_neg hok]

/-! ### `SYS_REPLY_RECV` -/

/-- The message the next receive returns. -/
def Endpoint.next (ep : Endpoint) : Option IpcMsg :=
  if 0 < ep.qLen then some (ep.queueMsgs ep.qHead.toNat)
  else if ep.pending then some ep.pendingMsg
  else none

/-- A receive without a message: the receiver is registered and blocks. -/
def Kernel.awaitMessage (k : Kernel) (ep : UInt64) (cur : UInt32) : Kernel :=
  let k' : Kernel :=
    { k with
      endpoints := Function.update k.endpoints ep
        { k.endpoints ep with hasReceiver := true, receiverTcb := cur } }
  k'.setThread cur { k.tcbs.threads cur.toNat with state := .blockedRecv }

theorem sysReplyRecv_ret {cap : Cap} (h : cap.type ≠ .endpoint) (k : Kernel) (cur : UInt32) :
    sysReplyRecv k cur cap = .ret .invalidCap := by
  simp only [sysReplyRecv, ne_eq, h, not_false_eq_true, if_true]

theorem sysReplyRecv_null {cap : Cap} (htype : cap.type = .endpoint) (hep : cap.u.epPtr = 0)
    (k : Kernel) (cur : UInt32) : sysReplyRecv k cur cap = .done .invalidArg k := by
  simp [sysReplyRecv, htype, endpointRecvAt, hep]

theorem sysReplyRecv_waits {cap : Cap} (htype : cap.type = .endpoint) (hep : cap.u.epPtr ≠ 0)
    {k : Kernel} (cur : UInt32) (hnext : (k.endpoints cap.u.epPtr).next = none) :
    sysReplyRecv k cur cap = .done .ok (k.awaitMessage cap.u.epPtr cur) := by
  unfold Endpoint.next at hnext
  split_ifs at hnext with hq hp
  have heq : endpointRecv k.tcbs (k.endpoints cap.u.epPtr) cur = (.ok, none, k.tcbs,
      { k.endpoints cap.u.epPtr with hasReceiver := true, receiverTcb := cur }) := by
    simp only [endpointRecv, gt_iff_lt, hq, if_false, hp, Bool.false_eq_true]
  simp only [sysReplyRecv, htype, ne_eq, not_true_eq_false, if_false, endpointRecvAt_eq hep heq,
    gt_iff_lt, hq, hp, Bool.false_eq_true, or_self, and_false, if_true, Kernel.awaitMessage]

/-- The copy of a message into the receiver's buffer. -/
def Kernel.deliver (k : Kernel) (cur : UInt32) (msg : IpcMsg) : Kernel :=
  k.setThread cur
    { k.tcbs.threads cur.toNat with ipcBuffer := received (k.ipcBuffer cur) msg }

/-- The state after `endpoint_recv`. -/
def Kernel.afterRecv (k : Kernel) (ep : UInt64) (cur : UInt32) : Kernel :=
  { k with
    tcbs := (endpointRecv k.tcbs (k.endpoints ep) cur).2.2.1
    endpoints := Function.update k.endpoints ep (endpointRecv k.tcbs (k.endpoints ep) cur).2.2.2 }

theorem endpointRecvAt_next {k : Kernel} {ep : UInt64} (hep : ep ≠ 0) (cur : UInt32) {msg : IpcMsg}
    (hnext : (k.endpoints ep).next = some msg) :
    endpointRecvAt k ep cur = (.ok, some msg, k.afterRecv ep cur) := by
  have hout : (endpointRecv k.tcbs (k.endpoints ep) cur).1 = .ok ∧
      (endpointRecv k.tcbs (k.endpoints ep) cur).2.1 = some msg := by
    unfold Endpoint.next at hnext
    unfold endpointRecv
    split_ifs at hnext with hq hp
    · cases hnext
      simp only [gt_iff_lt, hq, if_true, and_self]
    · cases hnext
      simp only [gt_iff_lt, hq, if_false, hp, if_true, and_self]
  rw [endpointRecvAt, if_neg hep]
  exact Prod.ext hout.1 (Prod.ext hout.2 rfl)

theorem pending_of_next {ep : Endpoint} {msg : IpcMsg} (h : ep.next = some msg) :
    ep.pending = true ∨ ep.qLen > 0 := by
  unfold Endpoint.next at h
  split_ifs at h with hq hp
  · exact Or.inr hq
  · exact Or.inl hp

theorem sysReplyRecv_takes {cap : Cap} (htype : cap.type = .endpoint) (hep : cap.u.epPtr ≠ 0)
    {k : Kernel} (cur : UInt32) {msg : IpcMsg} (hnext : (k.endpoints cap.u.epPtr).next = some msg)
    (hlen : msg.length ≤ ipcMsgMax) :
    sysReplyRecv k cur cap = .done .ok ((k.afterRecv cap.u.epPtr cur).deliver cur msg) := by
  have hwords := copyLoop_eq (UInt32.le_iff_toNat_le.mp hlen) msg.words
    ((k.afterRecv cap.u.epPtr cur).tcbs.threads cur.toNat).ipcBuffer.words
  simp only [sysReplyRecv, htype, ne_eq, not_true_eq_false, if_false,
    endpointRecvAt_next hep cur hnext, pending_of_next hnext, and_self, if_true, hwords]
  rfl

/-- The word loop leaves the buffer exactly when the stored message is too long. -/
theorem sysReplyRecv_fault {cap : Cap} (htype : cap.type = .endpoint) (hep : cap.u.epPtr ≠ 0)
    {k : Kernel} (cur : UInt32) {msg : IpcMsg} (hnext : (k.endpoints cap.u.epPtr).next = some msg)
    (hlen : ipcMsgMax < msg.length) : sysReplyRecv k cur cap = .fault := by
  have hwords := copyLoop_eq_none (UInt32.lt_iff_toNat_lt.mp hlen) msg.words
    ((k.afterRecv cap.u.epPtr cur).tcbs.threads cur.toNat).ipcBuffer.words
  simp only [sysReplyRecv, htype, ne_eq, not_true_eq_false, if_false,
    endpointRecvAt_next hep cur hnext, pending_of_next hnext, and_self, if_true, hwords]

/-! ### What a trap with an IPC number can do -/

/-- The state a trap leaves, whatever it returns. -/
def Trap.after (k : Kernel) (t : Trap) : Option Kernel :=
  (syscallHandler k t.frame t.cur t.entry t.now).map fun r => r.2.2

def Syscall.IsIpc (sys : Syscall) : Prop := sys = .call ∨ sys = .send ∨ sys = .replyRecv

/-- One of the three IPC numbers, from an existing thread. -/
structure Trap.IsIpc (t : Trap) : Prop where
  cur : t.cur < maxTcbs
  number : ∃ sys, Syscall.ofWord t.frame.a7 = some sys ∧ sys.IsIpc

/-- A trap that reaches the switch with this capability. -/
structure Trap.Invokes (k : Kernel) (t : Trap) (sys : Syscall) (cap : Cap) : Prop where
  admitted : Admitted k t.frame t.cur sys
  cap : invokedCap k (k.tcbs.threads t.cur.toNat) sys t.frame = some cap

theorem Trap.Invokes.of_checks {k : Kernel} {t : Trap} {sys : Syscall} {cap : Cap}
    (hnumber : Syscall.ofWord t.frame.a7 = some sys)
    (hrun : tcbIsRunnable (k.tcbs.threads t.cur.toNat) = true)
    (hcap : invokedCap k (k.tcbs.threads t.cur.toNat) sys t.frame = some cap)
    (hbudget : (k.sched.contexts
      (k.tcbs.threads t.cur.toNat).schedContext.toNat).remainingUs ≠ 0) : t.Invokes k sys cap := by
  have hsome : invokedCap k (k.tcbs.threads t.cur.toNat) sys t.frame ≠ none := by
    rw [hcap]
    exact Option.some_ne_none cap
  exact ⟨⟨hnumber, Or.inl hrun, Or.inr hsome, hbudget⟩, hcap⟩

/-- A message is stored, for a waiting receiver or in the ring. -/
inductive Stores (k : Kernel) (ep : UInt64) (sender : UInt32) (msg : IpcMsg) : Kernel → Prop
  | rendezvous (haccepts : Accepts k ep msg) (hreceiver : (k.endpoints ep).hasReceiver = true) :
      Stores k ep sender msg (k.rendezvous ep msg)
  | enqueue (haccepts : Accepts k ep msg) (hreceiver : (k.endpoints ep).hasReceiver = false)
      (hroom : (k.endpoints ep).qLen < 16) : Stores k ep sender msg (k.enqueue ep sender msg)

theorem Stores.accepts {k k' : Kernel} {ep : UInt64} {sender : UInt32} {msg : IpcMsg}
    (h : Stores k ep sender msg k') : Accepts k ep msg := by
  cases h with
  | rendezvous haccepts _ => exact haccepts
  | enqueue haccepts _ _ => exact haccepts

/-- The effects of an IPC trap, with the checks behind each. -/
inductive IpcEffect (k : Kernel) (t : Trap) : Kernel → Prop
  | send {cap : Cap} {k' : Kernel} (hinv : t.Invokes k .send cap)
      (hallowed : SendAllowed cap t.frame.a1) (hcaps : (k.ipcBuffer t.cur).caps ≤ ipcCapsMax)
      (hstores : Stores k cap.u.epPtr t.cur
        (sentMsg (k.ipcBuffer t.cur) (ipcLength t.frame.a1)) k') : IpcEffect k t k'
  | call {cap : Cap} {k' : Kernel} (hinv : t.Invokes k .call cap)
      (hallowed : CallAllowed cap t.frame.a1)
      (hstores : Stores k cap.u.epPtr t.cur
        (calledMsg (k.ipcBuffer t.cur) (ipcLength t.frame.a1)) k') :
      IpcEffect k t (k'.awaitReply t.cur)
  | take {cap : Cap} {msg : IpcMsg} (hinv : t.Invokes k .replyRecv cap)
      (htype : cap.type = .endpoint) (hep : cap.u.epPtr ≠ 0)
      (hnext : (k.endpoints cap.u.epPtr).next = some msg) (hlen : msg.length ≤ ipcMsgMax) :
      IpcEffect k t ((k.afterRecv cap.u.epPtr t.cur).deliver t.cur msg)
  | wait {cap : Cap} (hinv : t.Invokes k .replyRecv cap) (htype : cap.type = .endpoint)
      (hep : cap.u.epPtr ≠ 0) (hnext : (k.endpoints cap.u.epPtr).next = none) :
      IpcEffect k t (k.awaitMessage cap.u.epPtr t.cur)

theorem endpointSendAt_stores {k k' : Kernel} {ep : UInt64} {sender : UInt32} {msg : IpcMsg}
    {e : KError} (h : endpointSendAt k ep sender msg = (e, k')) :
    e ≠ .ok ∧ k' = k ∨ e = .ok ∧ Stores k ep sender msg k' := by
  obtain ⟨-, e', hne, heq⟩ | ⟨hacc, hr, heq⟩ | ⟨hacc, hr, hq, heq⟩ :=
    endpointSendAt_cases k ep sender msg
  · rw [heq] at h
    cases h
    exact Or.inl ⟨hne, rfl⟩
  · rw [heq] at h
    cases h
    exact Or.inr ⟨rfl, .rendezvous hacc hr⟩
  · rw [heq] at h
    cases h
    exact Or.inr ⟨rfl, .enqueue hacc hr hq⟩

theorem Accepts.stores {k : Kernel} {ep : UInt64} {msg : IpcMsg} (h : Accepts k ep msg)
    (sender : UInt32) :
    ∃ k', endpointSendAt k ep sender msg = (.ok, k') ∧ Stores k ep sender msg k' := by
  obtain ⟨hnot, -⟩ | ⟨hacc, hr, heq⟩ | ⟨hacc, hr, hq, heq⟩ := endpointSendAt_cases k ep sender msg
  · exact absurd h hnot
  · exact ⟨_, heq, .rendezvous hacc hr⟩
  · exact ⟨_, heq, .enqueue hacc hr hq⟩

/-- A message that passes every check of `SYS_SEND` is stored. -/
theorem Accepts.sysSend {k : Kernel} {cap : Cap} {arg1 : UInt64} {cur : UInt32}
    (h : Accepts k cap.u.epPtr (sentMsg (k.ipcBuffer cur) (ipcLength arg1)))
    (hallowed : SendAllowed cap arg1) (hcaps : (k.ipcBuffer cur).caps ≤ ipcCapsMax) :
    ∃ k', sysSend k cur cap arg1 = .done .ok k' ∧
      Stores k cap.u.epPtr cur (sentMsg (k.ipcBuffer cur) (ipcLength arg1)) k' := by
  obtain ⟨e, k₁, hsend, hdone⟩ := sysSend_done hallowed hcaps
  obtain ⟨k₂, hsend', hstores⟩ := h.stores cur
  obtain ⟨rfl, rfl⟩ := Prod.mk.inj (hsend'.symm.trans hsend)
  exact ⟨_, hdone, hstores⟩

/-- A message that passes every check of `SYS_CALL` is stored, and the caller waits. -/
theorem Accepts.sysCall {k : Kernel} {cap : Cap} {arg1 : UInt64} {cur : UInt32}
    (h : Accepts k cap.u.epPtr (calledMsg (k.ipcBuffer cur) (ipcLength arg1)))
    (hallowed : CallAllowed cap arg1) :
    ∃ k', sysCall k cur cap arg1 = .done .ok (k'.awaitReply cur) ∧
      Stores k cap.u.epPtr cur (calledMsg (k.ipcBuffer cur) (ipcLength arg1)) k' := by
  obtain ⟨e, k₁, hsend, hdone⟩ := sysCall_done hallowed k cur
  obtain ⟨k₂, hsend', hstores⟩ := h.stores cur
  obtain ⟨rfl, rfl⟩ := Prod.mk.inj (hsend'.symm.trans hsend)
  exact ⟨_, hdone, hstores⟩

variable {k k' : Kernel} {t : Trap} {e : KError}

theorem sysSend_effect {cap : Cap} (hinv : t.Invokes k .send cap)
    (h : sysSend k t.cur cap t.frame.a1 = .done e k') :
    e ≠ .ok ∧ k' = k ∨ e = .ok ∧ IpcEffect k t k' := by
  by_cases hallowed : SendAllowed cap t.frame.a1
  · by_cases hcaps : (k.ipcBuffer t.cur).caps ≤ ipcCapsMax
    · obtain ⟨e', k'', hsend, heq⟩ := sysSend_done hallowed hcaps
      rw [heq] at h
      cases h
      obtain hrefused | ⟨hok, hstores⟩ := endpointSendAt_stores hsend
      · exact Or.inl hrefused
      · exact Or.inr ⟨hok, .send hinv hallowed hcaps hstores⟩
    · rw [sysSend_fault hallowed (UInt32.not_le.mp hcaps)] at h
      cases h
  · rw [sysSend_ret hallowed] at h
    cases h

theorem sysCall_effect {cap : Cap} (hinv : t.Invokes k .call cap)
    (h : sysCall k t.cur cap t.frame.a1 = .done e k') :
    e ≠ .ok ∧ k' = k ∨ e = .ok ∧ IpcEffect k t k' := by
  by_cases hallowed : CallAllowed cap t.frame.a1
  · obtain ⟨e', k'', hsend, heq⟩ := sysCall_done hallowed k t.cur
    rw [heq] at h
    cases h
    obtain ⟨hne, rfl⟩ | ⟨rfl, hstores⟩ := endpointSendAt_stores hsend
    · rw [if_neg hne]
      exact Or.inl ⟨hne, rfl⟩
    · rw [if_pos rfl]
      exact Or.inr ⟨rfl, .call hinv hallowed hstores⟩
  · rw [sysCall_ret hallowed] at h
    cases h

theorem sysReplyRecv_effect {cap : Cap} (hinv : t.Invokes k .replyRecv cap)
    (h : sysReplyRecv k t.cur cap = .done e k') :
    e ≠ .ok ∧ k' = k ∨ e = .ok ∧ IpcEffect k t k' := by
  by_cases htype : cap.type = .endpoint
  · by_cases hep : cap.u.epPtr = 0
    · rw [sysReplyRecv_null htype hep] at h
      cases h
      exact Or.inl ⟨by decide, rfl⟩
    · cases hnext : (k.endpoints cap.u.epPtr).next with
      | none =>
        rw [sysReplyRecv_waits htype hep t.cur hnext] at h
        cases h
        exact Or.inr ⟨rfl, .wait hinv htype hep hnext⟩
      | some msg =>
        by_cases hlen : msg.length ≤ ipcMsgMax
        · rw [sysReplyRecv_takes htype hep t.cur hnext hlen] at h
          cases h
          exact Or.inr ⟨rfl, .take hinv htype hep hnext hlen⟩
        · rw [sysReplyRecv_fault htype hep t.cur hnext (UInt32.not_le.mp hlen)] at h
          cases h
  · rw [sysReplyRecv_ret htype] at h
    cases h

/-- A finished IPC case has failed without a trace or had one of the effects. -/
theorem dispatch_effect {sys : Syscall} (hsys : sys.IsIpc) (hadm : Admitted k t.frame t.cur sys)
    (h : dispatch k t.frame t.cur sys
      (invokedCap k (k.tcbs.threads t.cur.toNat) sys t.frame) = .done e k') :
    e ≠ .ok ∧ k' = k ∨ e = .ok ∧ IpcEffect k t k' := by
  cases hcap : invokedCap k (k.tcbs.threads t.cur.toNat) sys t.frame with
  | none =>
    have hyield : sys = .yield := hadm.cap.resolve_right fun hne => hne hcap
    subst hyield
    rcases hsys with hsys | hsys | hsys <;> cases hsys
  | some cap =>
    rw [hcap] at h
    rcases hsys with rfl | rfl | rfl
    · exact sysCall_effect ⟨hadm, hcap⟩ h
    · exact sysSend_effect ⟨hadm, hcap⟩ h
    · exact sysReplyRecv_effect ⟨hadm, hcap⟩ h

/-- What an IPC trap can do.  Only the WCET check can hide a success. -/
theorem Trap.returns_effect {f' : TrapFrame} {sys : Syscall}
    (hnumber : Syscall.ofWord t.frame.a7 = some sys) (hsys : sys.IsIpc)
    (h : syscallHandler k t.frame t.cur t.entry t.now = some (e, f', k')) :
    e ≠ .ok ∧ k' = k ∨ (e = .ok ↔ wcetCheck t.entry t.now = true) ∧ IpcEffect k t k' := by
  obtain ⟨sys', hadm, heq⟩ | ⟨-, e', hne, heq⟩ :=
    syscallHandler_cases k t.frame t.cur t.entry t.now
  · obtain rfl : sys' = sys := Option.some.inj (hadm.number.symm.trans hnumber)
    rw [heq] at h
    cases hout : dispatch k t.frame t.cur sys'
        (invokedCap k (k.tcbs.threads t.cur.toNat) sys' t.frame) with
    | fault =>
      rw [hout] at h
      cases h
    | ret e' =>
      rw [hout] at h
      cases h
      refine Or.inl ⟨?_, rfl⟩
      rintro rfl
      exact dispatch_ne_ret_ok k t.frame t.cur sys' _ hout
    | done e' k₁ =>
      rw [hout] at h
      have heff := dispatch_effect hsys hadm hout
      simp only [finish] at h
      split_ifs at h with hwcet
      · cases h
        exact heff.imp_right fun hdone => ⟨iff_of_true hdone.1 hwcet, hdone.2⟩
      · cases h
        refine heff.imp (fun hrefused => ⟨by decide, hrefused.2⟩) fun hdone => ⟨?_, hdone.2⟩
        exact iff_of_false (by decide) hwcet
  · rw [heq] at h
    cases h
    exact Or.inl ⟨hne, rfl⟩

theorem Trap.after_effect (ht : t.IsIpc) (h : t.after k = some k') :
    k' = k ∨ IpcEffect k t k' := by
  obtain ⟨⟨e, f', k''⟩, hret, rfl⟩ := Option.map_eq_some_iff.mp h
  obtain ⟨sys, hnumber, hsys⟩ := ht.number
  exact (t.returns_effect hnumber hsys hret).imp And.right And.right

theorem Trap.Invokes.handler {sys : Syscall} {cap : Cap} (h : t.Invokes k sys cap) :
    syscallHandler k t.frame t.cur t.entry t.now =
      finish k t.frame t.entry t.now (dispatch k t.frame t.cur sys (some cap)) := by
  rw [h.admitted.handler, h.cap]

/-- The case a trap reaches decides the state it leaves. -/
theorem Trap.Invokes.after {sys : Syscall} {cap : Cap} (h : t.Invokes k sys cap)
    (hdone : dispatch k t.frame t.cur sys (some cap) = .done e k') : t.after k = some k' := by
  obtain ⟨e₁, f₁, hfin⟩ := finish_done k k' t.frame t.entry t.now e
  rw [Trap.after, h.handler, hdone, hfin]
  rfl

end Moonlight
