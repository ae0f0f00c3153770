/-
Traps that are not environment calls.

`trap_entry` saves the cause and looks at it only to step over an environment call.
`syscall_handler` does not read it at all: at an interrupt or a fault, whatever the
interrupted registers hold is decoded as a syscall of thread 0.
-/
import Moonlight.Syscall.Authority
import Moonlight.Syscall.Mediation
import Moonlight.Syscall.Result
import Moonlight.Trap.Entry

namespace Moonlight

open Riscv

/-- Endpoints, CNodes, TCBs, the MDB and the scheduler are as they were. -/
structure Untouched (k k' : Kernel) : Prop where
  endpoints : k'.endpoints = k.endpoints
  cnodes : k'.cnodes = k.cnodes
  tcbs : k'.tcbs = k.tcbs
  heapTcbs : k'.heapTcbs = k.heapTcbs
  mdb : k'.mdb = k.mdb
  sched : k'.sched = k.sched

theorem Untouched.refl (k : Kernel) : Untouched k k := ⟨rfl, rfl, rfl, rfl, rfl, rfl⟩

/-- The trap comes back with the kernel and `a0` as they were. -/
def TrapIgnored (link entry now : UInt64) (m : Machine Kernel) : Prop :=
  ∃ m', Fuel.Yields (fun fuel => run (syscallCall entry now) link trapEntry fuel 0 m) m' ∧
    Untouched m.world m'.world ∧ m'.reg .a0 = m.reg .a0

/-- The interrupted registers as the handler reads them. -/
def trapRequest (m : Machine Kernel) : TrapFrame :=
  { a0 := m.reg .a0, a1 := m.reg .a1, a2 := m.reg .a2, a3 := m.reg .a3, a7 := m.reg .a7 }

/-! ### Requests that leave no trace -/

/-- The case returns from one of its own checks. -/
def Rejects (arg1 : UInt64) : Syscall → Option Cap → Prop
  | .call, some cap => ¬ CallAllowed cap arg1
  | .send, some cap => ¬ SendAllowed cap arg1
  | .replyRecv, some cap => cap.type ≠ .endpoint
  | _, _ => False

/-- The case runs to its end and changes nothing. -/
def Idles (k : Kernel) (f : TrapFrame) (cur : UInt32) : Syscall → Option Cap → Prop
  | .call, some cap => CallAllowed cap f.a1 ∧
      ¬ Accepts k cap.u.epPtr (calledMsg (k.ipcBuffer cur) (ipcLength f.a1))
  | .send, some cap => SendAllowed cap f.a1 ∧ (k.ipcBuffer cur).caps ≤ ipcCapsMax ∧
      ¬ Accepts k cap.u.epPtr (sentMsg (k.ipcBuffer cur) (ipcLength f.a1))
  | .replyRecv, some cap => cap.type = .endpoint ∧ cap.u.epPtr = 0
  | .invoke, some cap => ¬ InvokeEffect k cap (InvokeOp.ofWord (f.a1 &&& 0xFF)) f.a1 f.a2 f.a3
  | _, _ => True

/-- Why a copy that is not allowed fails: at the lookup, at the rights or at the destination. -/
def copyError (cn : CNode) (idx rights : UInt32) : KError :=
  match cnodeLookup cn idx with
  | none => .invalidCap
  | some sc => if rights &&& ~~~sc.rights ≠ 0 then .noRights else .revokeNeeded

/-- Why a mint that is not allowed fails: at the lookup, at GRANT, at the destination or in
`cap_derive`. -/
def mintError (cn : CNode) (idx dest : UInt32) : KError :=
  match cnodeLookup cn idx with
  | none => .invalidCap
  | some sc =>
      if capHasRight sc capRightsGrant = false then .noRights
      else if (cn.slots dest.toNat).isValid ≠ 0 then .revokeNeeded
      else .invalidCap

/-- The answer of a mapping, which `vspace_map` gives when the checks pass. -/
def mapError (k : Kernel) (cap : Cap) (arg2 arg3 : UInt64) : KError :=
  match cnodeLookup k.root (arg3 &&& 0xFF).toUInt32 with
  | none => .invalidCap
  | some frame =>
      if frame.type ≠ .frame then .invalidCap
      else if cap.u.rootPt = 0 then .invalidArg
      else (vspaceMap k.mem (k.vspaces cap.u.rootPt) arg2 frame.u.framePaddr pageSize
        frame.u.framePerms frame.u.frameColor).1

/-- The slot holds a capability of this type. -/
def HoldsType (cn : CNode) (idx : UInt32) (type : CapType) : Prop :=
  (cnodeLookup cn idx).map Cap.type = some type

instance (cn : CNode) (idx : UInt32) (type : CapType) : Decidable (HoldsType cn idx type) :=
  inferInstanceAs (Decidable (_ = _))

/-- The answer of an invocation that changes nothing: the first of its checks to fail, or
where none does, that all is as asked for already.  The mapping operations answer what they
have done to the page tables. -/
def invokeError (k : Kernel) (cap : Cap) (op : InvokeOp) (arg1 arg2 arg3 : UInt64) : KError :=
  if capIsValid cap = false then .invalidCap
  else
    match op with
    | .untypedRetype =>
        if capCanRetype cap (CapType.ofWord arg2) arg3 = true then .revokeNeeded else .invalidArg
    | .cnodeCopy =>
        if cap.type ≠ .cnode then .invalidCap
        else copyError k.root (arg2 &&& 0xFF).toUInt32 cap.rights
    | .cnodeMint =>
        if cap.type ≠ .cnode then .invalidCap
        else mintError k.root (arg2 &&& 0xFF).toUInt32 (arg3 &&& 0xFF).toUInt32
    | .cnodeMove =>
        if cap.type ≠ .cnode then .invalidCap
        else if cnodeLookupSlot k.root (arg2 &&& 0xFF).toUInt32 = none then .invalidCap
        else .revokeNeeded
    | .cnodeDelete => .invalidCap
    | .tcbConfigure =>
        if cap.type = .tcb ∧ HoldsType k.root ((arg1 >>> 16) &&& 0xFF).toUInt32 .cnode ∧
            HoldsType k.root (arg2 &&& 0xFF).toUInt32 .vspace then
          if cap.u.tcbPtr = 0 then .invalidArg else .ok
        else .invalidCap
    | .tcbResume | .tcbSuspend => if cap.type = .tcb then .ok else .invalidCap
    | .vspaceMap | .frameMap =>
        if cap.type ≠ .vspace then .invalidCap else mapError k cap arg2 arg3
    | .vspaceUnmap =>
        if cap.type ≠ .vspace then .invalidCap
        else if cap.u.rootPt = 0 then .invalidArg
        else (vspaceUnmap k.mem (k.vspaces cap.u.rootPt) arg2 arg3).1
    | .schedBind =>
        if BindAllowed k.sched (bindScId arg1) (bindPartId arg1) arg2 arg3 then .ok
        else .invalidArg
    | .other => .invalidArg

/-- The error of a case that changed nothing. -/
def idleError (k : Kernel) (f : TrapFrame) : Syscall → Option Cap → KError
  | .call, some cap | .send, some cap => if cap.u.epPtr = 0 then .invalidArg else .overflow
  | .yield, _ => .ok
  | .invoke, some cap => invokeError k cap (InvokeOp.ofWord (f.a1 &&& 0xFF)) f.a1 f.a2 f.a3
  | _, _ => .invalidArg

/-- The handler refuses the request before the switch or at a check of its case, or the
case changes nothing and the result register is not written or keeps its value. -/
inductive LeavesNoTrace (k : Kernel) (f : TrapFrame) (cur : UInt32) (entry now : UInt64) : Prop
  | refused (hnot : ∀ sys, ¬ Admitted k f cur sys) : LeavesNoTrace k f cur entry now
  | rejected {sys : Syscall} (hadm : Admitted k f cur sys)
      (hrejects : Rejects f.a1 sys (invokedCap k (callerOf k cur) sys f)) :
      LeavesNoTrace k f cur entry now
  | idle {sys : Syscall} (hadm : Admitted k f cur sys)
      (hidle : Idles k f cur sys (invokedCap k (callerOf k cur) sys f))
      (hresult : wcetCheck entry now = false ∨
        f.a0 = (idleError k f sys (invokedCap k (callerOf k cur) sys f)).code) :
      LeavesNoTrace k f cur entry now

/-! ### How a case ends -/

/-- The end of a case, by whether it rejects or idles. -/
inductive EndsWith (k : Kernel) (rejects idles : Prop) (e : KError) : Outcome → Prop
  | ret {e' : KError} (hrejects : rejects) : EndsWith k rejects idles e (.ret e')
  | idle {k' : Kernel} (hrejects : ¬ rejects) (hidles : idles) (hsame : Untouched k k') :
      EndsWith k rejects idles e (.done e k')
  | effect {e' : KError} {k' : Kernel} (hrejects : ¬ rejects) (hidles : ¬ idles)
      (hchanged : ¬ Untouched k k') : EndsWith k rejects idles e (.done e' k')
  | fault (hrejects : ¬ rejects) (hidles : ¬ idles) : EndsWith k rejects idles e .fault

variable {k : Kernel} {f : TrapFrame} {cur : UInt32} {cap : Cap}

/-- A message that fits is refused for a null pointer or a full ring. -/
theorem endpointSendAt_refused {ep : UInt64} {msg : IpcMsg} (hnot : ¬ Accepts k ep msg)
    (hfits : MsgFits msg) (sender : UInt32) :
    endpointSendAt k ep sender msg = (if ep = 0 then .invalidArg else .overflow, k) := by
  unfold endpointSendAt
  by_cases hep : ep = 0
  · rw [if_pos hep, if_pos hep]
  rw [if_neg hep, if_neg hep]
  rcases endpointSend_cases k.tcbs (k.endpoints ep) sender msg with
    ⟨hunfit, -⟩ | ⟨-, hr, -⟩ | ⟨-, -, -, heq⟩ | ⟨-, -, hq, -⟩
  · exact absurd hfits hunfit
  · exact absurd ⟨hep, hfits, Or.inl hr⟩ hnot
  · simp only [heq, k.endpoints_same]
  · exact absurd ⟨hep, hfits, Or.inr hq⟩ hnot

theorem calledMsg_fits {arg1 : UInt64} (h : CallAllowed cap arg1) (buffer : IpcMsg) :
    MsgFits (calledMsg buffer (ipcLength arg1)) :=
  ⟨h.length, show (0 : UInt32) ≤ 3 by decide⟩

theorem sentMsg_fits {arg1 : UInt64} (h : SendAllowed cap arg1) {buffer : IpcMsg}
    (hcaps : buffer.caps ≤ ipcCapsMax) : MsgFits (sentMsg buffer (ipcLength arg1)) :=
  ⟨h.length, hcaps⟩

theorem sysCall_ends (k : Kernel) (f : TrapFrame) (cur : UInt32) (cap : Cap) :
    EndsWith k (Rejects f.a1 .call (some cap)) (Idles k f cur .call (some cap))
      (idleError k f .call (some cap)) (sysCall k cur cap f.a1) := by
  by_cases hallowed : CallAllowed cap f.a1
  · obtain ⟨e, k', hsend, heq⟩ := sysCall_done hallowed k cur
    rw [heq]
    by_cases hacc : Accepts k cap.u.epPtr (calledMsg (k.ipcBuffer cur) (ipcLength f.a1))
    · obtain ⟨k'', hsend', hstores⟩ := hacc.stores cur
      obtain ⟨rfl, rfl⟩ := Prod.mk.inj (hsend'.symm.trans hsend)
      refine .effect (not_not.mpr hallowed) (fun hidle => hidle.2 hacc) fun hsame => ?_
      exact hstores.endpoints_ne hsame.endpoints
    · rw [endpointSendAt_refused hacc (calledMsg_fits hallowed _)] at hsend
      obtain ⟨rfl, rfl⟩ := Prod.mk.inj hsend
      have hne : (if cap.u.epPtr = 0 then KError.invalidArg else KError.overflow) ≠ .ok := by
        split_ifs <;> decide
      rw [if_neg hne]
      exact .idle (not_not.mpr hallowed) ⟨hallowed, hacc⟩ (Untouched.refl k)
  · rw [sysCall_ret hallowed]
    exact .ret hallowed

theorem sysSend_ends (k : Kernel) (f : TrapFrame) (cur : UInt32) (cap : Cap) :
    EndsWith k (Rejects f.a1 .send (some cap)) (Idles k f cur .send (some cap))
      (idleError k f .send (some cap)) (sysSend k cur cap f.a1) := by
  by_cases hallowed : SendAllowed cap f.a1
  · by_cases hcaps : (k.ipcBuffer cur).caps ≤ ipcCapsMax
    · obtain ⟨e, k', hsend, heq⟩ := sysSend_done hallowed hcaps
      rw [heq]
      by_cases hacc : Accepts k cap.u.epPtr (sentMsg (k.ipcBuffer cur) (ipcLength f.a1))
      · obtain ⟨k'', hsend', hstores⟩ := hacc.stores cur
        obtain ⟨rfl, rfl⟩ := Prod.mk.inj (hsend'.symm.trans hsend)
        refine .effect (not_not.mpr hallowed) (fun hidle => hidle.2.2 hacc) fun hsame => ?_
        exact hstores.endpoints_ne hsame.endpoints
      · rw [endpointSendAt_refused hacc (sentMsg_fits hallowed hcaps)] at hsend
        obtain ⟨rfl, rfl⟩ := Prod.mk.inj hsend
        exact .idle (not_not.mpr hallowed) ⟨hallowed, hcaps, hacc⟩ (Untouched.refl k)
    · rw [sysSend_fault hallowed (UInt32.not_le.mp hcaps)]
      exact .fault (not_not.mpr hallowed) fun hidle => hcaps hidle.2.1
  · rw [sysSend_ret hallowed]
    exact .ret hallowed

theorem sysReplyRecv_ends (k : Kernel) (f : TrapFrame) (cap : Cap)
    (hrun : tcbIsRunnable (callerOf k cur) = true) :
    EndsWith k (Rejects f.a1 .replyRecv (some cap)) (Idles k f cur .replyRecv (some cap))
      (idleError k f .replyRecv (some cap)) (sysReplyRecv k cur cap) := by
  by_cases htype : cap.type = .endpoint
  · have hkept : ¬ Rejects f.a1 .replyRecv (some cap) := not_not.mpr htype
    by_cases hep : cap.u.epPtr = 0
    · rw [sysReplyRecv_null htype hep]
      exact .idle hkept ⟨htype, hep⟩ (Untouched.refl k)
    · have hbusy : ¬ Idles k f cur .replyRecv (some cap) := fun hidle => hep hidle.2
      cases hnext : (k.endpoints cap.u.epPtr).next with
      | none =>
        rw [sysReplyRecv_waits htype hep cur hnext]
        refine .effect hkept hbusy fun hsame => ?_
        -- the caller was runnable and now waits
        rw [callerOf, tcbIsRunnable, ← hsame.tcbs, awaitMessage_self] at hrun
        cases hrun
      | some msg =>
        by_cases hlen : msg.length ≤ ipcMsgMax
        · rw [sysReplyRecv_takes htype hep cur hnext hlen]
          refine .effect hkept hbusy fun hsame => ?_
          exact afterRecv_endpoints_ne hnext cur hsame.endpoints
        · rw [sysReplyRecv_fault htype hep cur hnext (UInt32.not_le.mp hlen)]
          exact .fault hkept hbusy
  · rw [sysReplyRecv_ret htype]
    exact .ret htype

theorem setRoot_cnodes_of_root {cn : CNode} (h : (k.setRoot cn).root = k.root) :
    (k.setRoot cn).cnodes = k.cnodes := by
  rw [Kernel.setRoot_root] at h
  rw [h]
  exact Function.update_eq_self _ _

theorem setTcbAt_cnodes (k : Kernel) (ptr : UInt64) (t : Tcb) :
    (k.setTcbAt ptr t).cnodes = k.cnodes := by
  unfold Kernel.setTcbAt
  split <;> rfl

/-- Every invocation works on the root CNode. -/
theorem handleInvoke_cnodes_of_root {op : InvokeOp} {arg1 arg2 arg3 : UInt64}
    (hroot : (handleInvoke k cap op arg1 arg2 arg3).2.root = k.root) :
    (handleInvoke k cap op arg1 arg2 arg3).2.cnodes = k.cnodes := by
  by_cases hvalid : capIsValid cap = true
  swap
  · rw [handleInvoke_of_invalid hvalid]
  cases op with
  | untypedRetype =>
    obtain ⟨-, heq⟩ | ⟨-, e, -, heq⟩ := handleInvoke_retype_cases k cap arg1 arg2 arg3
    · rw [heq] at hroot ⊢
      exact setRoot_cnodes_of_root hroot
    · rw [heq]
  | cnodeCopy =>
    obtain ⟨sc, -, -, heq⟩ | ⟨-, e, -, heq⟩ := handleInvoke_copy_cases k cap arg1 arg2 arg3
    · rw [heq] at hroot ⊢
      exact setRoot_cnodes_of_root hroot
    · rw [heq]
  | cnodeMint =>
    obtain ⟨sc, -, -, heq⟩ | ⟨-, e, -, heq⟩ := handleInvoke_mint_cases k cap arg1 arg2 arg3
    · rw [heq] at hroot ⊢
      exact setRoot_cnodes_of_root hroot
    · rw [heq]
  | cnodeMove =>
    obtain ⟨slot, -, -, heq⟩ | ⟨-, e, -, heq⟩ := handleInvoke_move_cases k cap arg1 arg2 arg3
    · rw [heq] at hroot ⊢
      exact setRoot_cnodes_of_root hroot
    · rw [heq]
  | cnodeDelete =>
    obtain ⟨-, heq⟩ | ⟨-, e, -, heq⟩ := handleInvoke_delete_cases k cap arg1 arg2 arg3
    · rw [heq] at hroot ⊢
      exact setRoot_cnodes_of_root hroot
    · rw [heq]
  | tcbConfigure =>
    obtain ⟨v, -, heq⟩ | ⟨-, heq⟩ := handleInvoke_configure_cases k cap arg1 arg2 arg3
    · rw [heq]
      exact setTcbAt_cnodes _ _ _
    · rw [heq]
  | tcbResume =>
    by_cases hcap : IsTcbCap cap
    · rw [handleInvoke_resume hcap]
      exact setTcbAt_cnodes _ _ _
    · rw [handleInvoke_not_tcb hcap k (Or.inr (Or.inl rfl))]
  | tcbSuspend =>
    by_cases hcap : IsTcbCap cap
    · rw [handleInvoke_suspend hcap]
      exact setTcbAt_cnodes _ _ _
    · rw [handleInvoke_not_tcb hcap k (Or.inr (Or.inr rfl))]
  | vspaceMap | frameMap =>
    simp only [handleInvoke, hvalid, not_true_eq_false, if_false, invokeVspaceMap]
    repeat' split
    all_goals rfl
  | vspaceUnmap =>
    simp only [handleInvoke, hvalid, not_true_eq_false, if_false, invokeVspaceUnmap]
    repeat' split
    all_goals rfl
  | schedBind =>
    obtain ⟨-, heq⟩ | ⟨-, heq⟩ := handleInvoke_bind_cases k cap arg1 arg2 arg3
    · rw [heq]
    · rw [heq]
  | other => simp only [handleInvoke, hvalid, not_true_eq_false, if_false]

theorem handleInvoke_untouched_iff {op : InvokeOp} {arg1 arg2 arg3 : UInt64} :
    Untouched k (handleInvoke k cap op arg1 arg2 arg3).2 ↔
      ¬ InvokeEffect k cap op arg1 arg2 arg3 := by
  rw [← handleInvoke_unchanged_iff]
  constructor
  · intro h
    exact ⟨congrFun h.cnodes .root, h.mdb, h.endpoints, h.tcbs, h.heapTcbs, h.sched⟩
  · intro h
    exact ⟨h.endpoints, handleInvoke_cnodes_of_root h.root, h.tcbs, h.heapTcbs, h.mdb, h.sched⟩

section
variable {cns : CNodeRef → CNode} {r : CNodeRef} {d s rights badge : UInt32}

theorem cnodeCopy_error (hlt : d < maxCapsPerCnode ∧ s < maxCapsPerCnode)
    (hnot : ∀ sc, ¬ CopyAllowed cns r d r s rights sc) :
    (cnodeCopy cns r d r s rights).1 = copyError (cns r) s rights := by
  unfold cnodeCopy copyError
  rw [if_neg (indices_lt_iff.mp hlt)]
  cases hl : cnodeLookup (cns r) s with
  | none => rfl
  | some sc =>
    obtain ⟨slot, -, -, -, hv, -⟩ := cnodeLookup_some hl
    by_cases hr : rights &&& ~~~sc.rights = 0
    · have hbusy : ((cns r).slots d.toNat).isValid ≠ 0 := fun hfree =>
        hnot sc ⟨hlt, hl, (rightsSubset_iff _ _).mpr hr, hfree⟩
      simp [hr, capDerive_of_subset hr, hv, hbusy]
    · simp [hr]

theorem cnodeMint_error (hlt : d < maxCapsPerCnode ∧ s < maxCapsPerCnode)
    (hnot : ∀ sc, ¬ MintAllowed cns r d r s rights sc) :
    (cnodeMint cns r d r s rights badge).1 = mintError (cns r) s d := by
  unfold cnodeMint mintError
  rw [if_neg (indices_lt_iff.mp hlt)]
  cases hl : cnodeLookup (cns r) s with
  | none => rfl
  | some sc =>
    by_cases hg : capHasRight sc capRightsGrant = true
    swap
    · simp [hg]
    by_cases hfree : ((cns r).slots d.toNat).isValid = 0
    · have hr : rights &&& ~~~sc.rights ≠ 0 := fun hr =>
        hnot sc ⟨⟨hlt, hl, (rightsSubset_iff _ _).mpr hr, hfree⟩, hg⟩
      simp [hg, hfree, capDerive, hr]
    · simp [hg, hfree]

theorem cnodeMove_error (hnot : ∀ slot, ¬ MoveAllowed cns r d r s slot) :
    (cnodeMove cns r d r s).1 =
      if cnodeLookupSlot (cns r) s = none then .invalidCap else .revokeNeeded := by
  unfold cnodeMove
  cases hl : cnodeLookupSlot (cns r) s with
  | none => rfl
  | some slot =>
    have hbusy : ((cns r).slots d.toNat).isValid ≠ 0 := fun hfree => hnot slot ⟨hl, hfree⟩
    simp [hbusy]

theorem cnodeDelete_error (hlt : s < maxCapsPerCnode) (hnot : ¬ DeleteAllowed cns r s) :
    (cnodeDelete cns r s).1 = .invalidCap := by
  have hempty : ((cns r).slots s.toNat).isValid = 0 := by
    by_contra hv
    exact hnot ⟨hlt, hv⟩
  simp [cnodeDelete, UInt32.not_le.mpr hlt, hempty]

end

theorem if_congr_not {p : Prop} [Decidable p] {e e₁ e₂ : KError} (h : p → e₁ = e₂) :
    (if ¬ p then e else e₁) = if ¬ p then e else e₂ := by
  by_cases hp : p
  · rw [h hp]
  · rw [if_pos hp, if_pos hp]

theorem invokeCnode_error (k : Kernel) (cap : Cap) (r : KError × (CNodeRef → CNode)) :
    (invokeCnode k cap r).1 = if cap.type ≠ .cnode then .invalidCap else r.1 := by
  unfold invokeCnode
  split_ifs <;> rfl

theorem invokeTcbConfigure_error (k : Kernel) (cap : Cap) (arg1 arg2 arg3 : UInt64) :
    (invokeTcbConfigure k cap arg1 arg2 arg3).1 =
      if cap.type = .tcb ∧ HoldsType k.root ((arg1 >>> 16) &&& 0xFF).toUInt32 .cnode ∧
          HoldsType k.root (arg2 &&& 0xFF).toUInt32 .vspace then
        if cap.u.tcbPtr = 0 then .invalidArg else .ok
      else .invalidCap := by
  unfold invokeTcbConfigure
  by_cases htype : cap.type = .tcb
  swap
  · simp [htype]
  generalize ((arg1 >>> 16) &&& 0xFF).toUInt32 = cnodeIdx
  generalize (arg2 &&& 0xFF).toUInt32 = vspaceIdx
  cases hcnode : cnodeLookup k.root cnodeIdx with
  | none => simp [htype, HoldsType, hcnode]
  | some c =>
    by_cases hc : c.type = .cnode
    swap
    · simp [htype, HoldsType, hcnode, hc]
    cases hvspace : cnodeLookup k.root vspaceIdx with
    | none => simp [htype, hc, HoldsType, hvspace]
    | some v =>
      by_cases hv : v.type = .vspace
      swap
      · simp [htype, hc, HoldsType, hvspace, hv]
      by_cases hptr : cap.u.tcbPtr = 0
      · simp [htype, HoldsType, hcnode, hc, hvspace, hv, hptr]
      · simp [htype, HoldsType, hcnode, hc, hvspace, hv, hptr]

theorem invokeVspaceMap_error (k : Kernel) (cap : Cap) (arg2 arg3 : UInt64) :
    (invokeVspaceMap k cap arg2 arg3).1 =
      if cap.type ≠ .vspace then .invalidCap else mapError k cap arg2 arg3 := by
  unfold invokeVspaceMap mapError
  by_cases htype : cap.type ≠ .vspace
  · rw [if_pos htype, if_pos htype]
  rw [if_neg htype, if_neg htype]
  cases cnodeLookup k.root (arg3 &&& 0xFF).toUInt32 with
  | none => rfl
  | some frame =>
    simp only
    split_ifs <;> rfl

/-- An invocation without effect answers by its first failing check. -/
theorem handleInvoke_error {op : InvokeOp} {arg1 arg2 arg3 : UInt64}
    (hnone : ¬ InvokeEffect k cap op arg1 arg2 arg3) :
    (handleInvoke k cap op arg1 arg2 arg3).1 = invokeError k cap op arg1 arg2 arg3 := by
  unfold invokeError
  by_cases hvalid : capIsValid cap = true
  swap
  · rw [handleInvoke_of_invalid hvalid, if_pos (Bool.eq_false_iff.mpr hvalid)]
  have hsrc := lowByte_lt arg2
  have hdst := lowByte_lt arg3
  simp only [handleInvoke, hvalid, not_true_eq_false, if_false, Bool.true_eq_false]
  cases op with
  | untypedRetype =>
    unfold invokeRetype
    by_cases hcan : capCanRetype cap (CapType.ofWord arg2) arg3 = true
    · have hbusy : (k.root.slots (retypeDest arg1).toNat).isValid ≠ 0 := fun hfree =>
        hnone ⟨hvalid, hcan, hfree⟩
      simp [hcan, capRetype_isValid hcan, UInt32.not_le.mpr (retypeDest_lt arg1), hbusy]
    · simp [hcan]
  | cnodeCopy =>
    refine (invokeCnode_error k cap _).trans (if_congr_not fun htype => ?_)
    exact cnodeCopy_error ⟨hdst, hsrc⟩ fun sc h => hnone ⟨sc, ⟨hvalid, htype⟩, h⟩
  | cnodeMint =>
    refine (invokeCnode_error k cap _).trans (if_congr_not fun htype => ?_)
    exact cnodeMint_error ⟨hdst, hsrc⟩ fun sc h => hnone ⟨sc, ⟨hvalid, htype⟩, h⟩
  | cnodeMove =>
    refine (invokeCnode_error k cap _).trans (if_congr_not fun htype => ?_)
    exact cnodeMove_error fun slot h => hnone ⟨slot, ⟨hvalid, htype⟩, h⟩
  | cnodeDelete =>
    rw [invokeCnode_error]
    by_cases htype : cap.type = .cnode
    · rw [if_neg (not_not.mpr htype)]
      exact cnodeDelete_error hsrc fun h => hnone ⟨⟨hvalid, htype⟩, h⟩
    · rw [if_pos htype]
  | tcbConfigure => exact invokeTcbConfigure_error k cap arg1 arg2 arg3
  | tcbResume =>
    simp only [invokeTcbResume]
    split_ifs <;> first | rfl | contradiction
  | tcbSuspend =>
    simp only [invokeTcbSuspend]
    split_ifs <;> first | rfl | contradiction
  | vspaceMap | frameMap => exact invokeVspaceMap_error k cap arg2 arg3
  | vspaceUnmap =>
    simp only [invokeVspaceUnmap]
    split_ifs <;> rfl
  | schedBind =>
    simp only [invokeSchedBind]
    obtain ⟨hallowed, heq⟩ | ⟨hdenied, heq⟩ := schedContextBind_cases k.sched (bindScId arg1)
      (bindTcbId arg1) (bindPartId arg1) arg2 arg3 (bindPrio arg1)
    · rw [if_pos hallowed]
      exact congrArg Prod.fst heq
    · rw [if_neg hdenied]
      exact congrArg Prod.fst heq
  | other => rfl

theorem sysInvoke_ends (k : Kernel) (f : TrapFrame) (cur : UInt32) (cap : Cap) :
    EndsWith k (Rejects f.a1 .invoke (some cap)) (Idles k f cur .invoke (some cap))
      (idleError k f .invoke (some cap)) (sysInvoke k cap f) := by
  by_cases heffect : InvokeEffect k cap (InvokeOp.ofWord (f.a1 &&& 0xFF)) f.a1 f.a2 f.a3
  · refine .effect id (not_not.mpr heffect) fun hsame => ?_
    exact handleInvoke_untouched_iff.mp hsame heffect
  · have hdone : sysInvoke k cap f = .done (idleError k f .invoke (some cap))
        (handleInvoke k cap (InvokeOp.ofWord (f.a1 &&& 0xFF)) f.a1 f.a2 f.a3).2 :=
      congrArg (Outcome.done · _) (handleInvoke_error heffect)
    rw [hdone]
    exact .idle id heffect (handleInvoke_untouched_iff.mpr heffect)

theorem dispatch_ends {sys : Syscall} (hadm : Admitted k f cur sys) :
    EndsWith k (Rejects f.a1 sys (invokedCap k (callerOf k cur) sys f))
      (Idles k f cur sys (invokedCap k (callerOf k cur) sys f))
      (idleError k f sys (invokedCap k (callerOf k cur) sys f))
      (dispatch k f cur sys (invokedCap k (callerOf k cur) sys f)) := by
  cases hcap : invokedCap k (callerOf k cur) sys f with
  | none =>
    obtain rfl : sys = .yield := hadm.cap.resolve_right fun hne => hne hcap
    exact .idle id trivial (Untouched.refl k)
  | some cap =>
    cases sys with
    | call => exact sysCall_ends k f cur cap
    | replyRecv => exact sysReplyRecv_ends k f cap (hadm.runnable.resolve_right (by decide))
    | send => exact sysSend_ends k f cur cap
    | yield => exact .idle id trivial (Untouched.refl k)
    | «seal» => exact .idle id trivial (Untouched.refl k)
    | invoke => exact sysInvoke_ends k f cur cap

/-! ### The handler -/

theorem leavesNoTrace_iff {sys : Syscall} (hadm : Admitted k f cur sys) (entry now : UInt64) :
    LeavesNoTrace k f cur entry now ↔
      Rejects f.a1 sys (invokedCap k (callerOf k cur) sys f) ∨
      Idles k f cur sys (invokedCap k (callerOf k cur) sys f) ∧
        (wcetCheck entry now = false ∨
          f.a0 = (idleError k f sys (invokedCap k (callerOf k cur) sys f)).code) := by
  constructor
  · intro htrace
    cases htrace with
    | refused hnot => exact absurd hadm (hnot sys)
    | rejected hadm' hrejects =>
      obtain rfl := Option.some.inj (hadm'.number.symm.trans hadm.number)
      exact Or.inl hrejects
    | idle hadm' hidle hresult =>
      obtain rfl := Option.some.inj (hadm'.number.symm.trans hadm.number)
      exact Or.inr ⟨hidle, hresult⟩
  · intro hcond
    rcases hcond with hrejects | ⟨hidle, hresult⟩
    · exact .rejected hadm hrejects
    · exact .idle hadm hidle hresult

theorem finish_no_trace_iff {rejects idles : Prop} {e : KError} {o : Outcome}
    (h : EndsWith k rejects idles e o) (f : TrapFrame) (entry now : UInt64) :
    (∃ e' f' k', finish k f entry now o = some (e', f', k') ∧ Untouched k k' ∧ f'.a0 = f.a0) ↔
      rejects ∨ idles ∧ (wcetCheck entry now = false ∨ f.a0 = e.code) := by
  cases h with
  | ret hrejects =>
    exact iff_of_true ⟨_, f, k, rfl, Untouched.refl k, rfl⟩ (Or.inl hrejects)
  | idle hrejects hidles hsame =>
    rw [or_iff_right hrejects, and_iff_right hidles, finish]
    by_cases hwcet : wcetCheck entry now = true
    · rw [if_pos hwcet, hwcet, or_iff_right (by decide)]
      constructor
      · intro hignored
        obtain ⟨e', f', k'', hret, -, ha0⟩ := hignored
        cases hret
        exact ha0.symm
      · exact fun ha0 => ⟨_, _, _, rfl, hsame, ha0.symm⟩
    · rw [if_neg hwcet]
      exact iff_of_true ⟨_, f, _, rfl, hsame, rfl⟩ (Or.inl (Bool.eq_false_iff.mpr hwcet))
  | @effect e' k' hrejects hidles hchanged =>
    refine iff_of_false ?_ fun hor => hor.elim hrejects fun hidle => hidles hidle.1
    intro hignored
    obtain ⟨e₁, f₁, k₁, hret, hsame, -⟩ := hignored
    obtain ⟨e₂, f₂, hfin⟩ := finish_done k k' f entry now e'
    rw [hfin] at hret
    cases hret
    exact hchanged hsame
  | fault hrejects hidles =>
    refine iff_of_false ?_ fun hor => hor.elim hrejects fun hidle => hidles hidle.1
    intro hignored
    obtain ⟨e', f', k', hret, -⟩ := hignored
    cases hret

theorem syscallHandler_no_trace_iff (k : Kernel) (f : TrapFrame) (cur : UInt32)
    (entry now : UInt64) :
    (∃ e f' k', syscallHandler k f cur entry now = some (e, f', k') ∧ Untouched k k' ∧
      f'.a0 = f.a0) ↔ LeavesNoTrace k f cur entry now := by
  obtain ⟨sys, hadm, -⟩ | ⟨hnot, e, -, heq⟩ := syscallHandler_cases k f cur entry now
  · rw [syscallHandler_admitted hadm, leavesNoTrace_iff hadm]
    exact finish_no_trace_iff (dispatch_ends hadm) f entry now
  · exact ⟨fun _ => .refused hnot, fun _ => ⟨e, f, k, heq, Untouched.refl k, rfl⟩⟩

/-! ### The trap entry -/

theorem atCall_world (link : UInt64) (m : Machine Kernel) : (atCall link m).world = m.world := by
  rw [atCall, Machine.setReg_world, world_line]

theorem atCall_a1 (link : UInt64) (m : Machine Kernel) : (atCall link m).reg .a1 = 0 := by
  obtain ⟨mc, -, heq⟩ := atCall_eq link m
  rw [heq, Machine.reg_setReg_of_ne (by decide), Machine.reg_setReg (by decide)]

theorem atCall_frame (link : UInt64) (m : Machine Kernel) :
    (atCall link m).reg .a0 = trapFrame m :=
  (atCall_a0 link m).trans (atCall_saved link m).sp

theorem atCall_load (link : UInt64) (m : Machine Kernel) {r : Reg} (d : UInt64) (hr : r ≠ .zero)
    (hd : d = offset (trapFrameOffset r)) :
    load64 (atCall link m).mem (trapFrame m + d) = m.reg r := by
  have hsaved := atCall_saved link m
  rw [hd, ← hsaved.sp]
  exact hsaved.regs r hr

theorem atCall_load_a0 (link : UInt64) (m : Machine Kernel) :
    load64 (atCall link m).mem (trapFrame m + 88) = m.reg .a0 :=
  atCall_load link m 88 (by decide) (by decide)

theorem atCall_request (link : UInt64) (m : Machine Kernel) :
    frameAt (atCall link m).mem (trapFrame m) = trapRequest m := by
  unfold frameAt trapRequest
  rw [atCall_load_a0, atCall_load link m (r := .a1) 96 (by decide) (by decide),
    atCall_load link m (r := .a2) 104 (by decide) (by decide),
    atCall_load link m (r := .a3) 112 (by decide) (by decide),
    atCall_load link m (r := .a7) 144 (by decide) (by decide)]

/-- What the call leaves: on a null frame nothing but the error, otherwise the state of
the handler with its `a0` in the frame. -/
theorem syscallCall_cases {mc : Machine Kernel} (ha1 : mc.reg .a1 = 0) (entry now : UInt64) :
    (mc.reg .a0 = 0 ∧ ∃ mr, syscallCall entry now mc = some mr ∧ mr.world = mc.world ∧
      mr.mem = mc.mem) ∨
    (mc.reg .a0 ≠ 0 ∧
      syscallHandler mc.world (frameAt mc.mem (mc.reg .a0)) 0 entry now = none ∧
      syscallCall entry now mc = none) ∨
    (mc.reg .a0 ≠ 0 ∧ ∃ e f' k' mr,
      syscallHandler mc.world (frameAt mc.mem (mc.reg .a0)) 0 entry now = some (e, f', k') ∧
      syscallCall entry now mc = some mr ∧ mr.world = k' ∧
      load64 mr.mem (mc.reg .a0 + 88) = f'.a0) := by
  have hcur : (0 : UInt64).toUInt32 = 0 := rfl
  unfold syscallCall
  rw [ha1, hcur]
  by_cases hnull : mc.reg .a0 = 0
  · rw [if_pos hnull]
    exact Or.inl ⟨hnull, _, rfl, rfl, rfl⟩
  · rw [if_neg hnull]
    cases hret : syscallHandler mc.world (frameAt mc.mem (mc.reg .a0)) 0 entry now with
    | none => exact Or.inr (Or.inl ⟨hnull, rfl, rfl⟩)
    | some r =>
      obtain ⟨e, f', k'⟩ := r
      exact Or.inr (Or.inr ⟨hnull, e, f', k', _, rfl, rfl, rfl, load64_store64 _ _ _⟩)

theorem trapEntry_no_second_call : Instr.call ∉ trapEntry.drop 41 := by decide +kernel

/-- The entry comes back only when its call does, with the state the call left. -/
theorem trapEntry_returned {link entry now : UInt64} {m m' : Machine Kernel}
    (h : Fuel.Yields (fun fuel => run (syscallCall entry now) link trapEntry fuel 0 m) m') :
    ∃ mr, syscallCall entry now (atCall link m) = some mr ∧ m'.world = mr.world ∧
      Resumed m mr m' := by
  have hcall : Fuel.Yields
      (fun fuel => run (syscallCall entry now) link trapEntry fuel 40 (line m prologue)) m' :=
    yields_of_line prologue (trapEntry.drop 40) rfl prologue_straight h
  obtain ⟨mr, hmr, n, hn⟩ := yields_of_call rfl hcall
  rw [← trapEntry_take] at hmr
  obtain ⟨m'', hyields, hres⟩ := trapEntry_resumed hmr (syscallCall_abi hmr)
  obtain rfl := h.unique hyields
  exact ⟨mr, hmr, world_run trapEntry_no_second_call (hn n (Nat.le_refl n)), hres⟩

theorem trapEntry_returns {link entry now : UInt64} {m mr : Machine Kernel}
    (h : syscallCall entry now (atCall link m) = some mr) :
    ∃ m', Fuel.Yields (fun fuel => run (syscallCall entry now) link trapEntry fuel 0 m) m' ∧
      m'.world = mr.world ∧ Resumed m mr m' := by
  obtain ⟨m', hyields, hres⟩ := trapEntry_resumed h (syscallCall_abi h)
  obtain ⟨mr', hmr', hworld, -⟩ := trapEntry_returned hyields
  obtain rfl := Option.some.inj (h.symm.trans hmr')
  exact ⟨m', hyields, hworld, hres⟩

/-- The trap is ignored when its frame is null, or when the handler leaves no trace of
the interrupted registers read as a request. -/
theorem trapIgnored_iff (link entry now : UInt64) (m : Machine Kernel) :
    TrapIgnored link entry now m ↔
      trapFrame m = 0 ∨ LeavesNoTrace m.world (trapRequest m) 0 entry now := by
  have hcases := syscallCall_cases (atCall_a1 link m) entry now
  rw [atCall_frame, atCall_world, atCall_request] at hcases
  rw [← syscallHandler_no_trace_iff]
  obtain ⟨hnull, mr, hmr, hworld, hmem⟩ | ⟨hframe, hnone, hfault⟩ |
      ⟨hframe, e, f', k', mr, hret, hmr, hworld, ha0⟩ := hcases
  · refine iff_of_true ?_ (Or.inl hnull)
    obtain ⟨m', hyields, hworld', hres⟩ := trapEntry_returns hmr
    refine ⟨m', hyields, ?_, ?_⟩
    · rw [hworld', hworld]
      exact Untouched.refl _
    · rw [hres.a0, hmem, atCall_load_a0]
  · refine iff_of_false ?_ ?_
    · intro hignored
      obtain ⟨m', hyields, -⟩ := hignored
      obtain ⟨mr, hmr, -⟩ := trapEntry_returned hyields
      rw [hfault] at hmr
      cases hmr
    · intro hcond
      rcases hcond with hnull | ⟨e, f', k', hret, -⟩
      · exact hframe hnull
      · rw [hnone] at hret
        cases hret
  · rw [or_iff_right hframe]
    obtain ⟨m', hyields, hworld', hres⟩ := trapEntry_returns hmr
    have hkept : m'.reg .a0 = f'.a0 := hres.a0.trans ha0
    rw [hworld] at hworld'
    constructor
    · intro hignored
      obtain ⟨m'', hyields', hsame, hback⟩ := hignored
      obtain rfl := hyields.unique hyields'
      rw [hworld'] at hsame
      exact ⟨e, f', k', hret, hsame, hkept.symm.trans hback⟩
    · intro hignored
      obtain ⟨e₁, f₁, k₁, hret₁, hsame, hback⟩ := hignored
      rw [hret] at hret₁
      cases hret₁
      rw [← hworld'] at hsame
      exact ⟨m', hyields, hsame, hkept.trans hback⟩

/-- A trap that is not an environment call is ignored if and only if its frame is null
or the interrupted registers happen to be a request without a trace. -/
theorem only_ecalls_execute_iff (link entry now : UInt64) (m : Machine Kernel) :
    (¬ IsEcall (m.csrs .mcause) → TrapIgnored link entry now m) ↔
      (IsEcall (m.csrs .mcause) ∨ trapFrame m = 0 ∨
        LeavesNoTrace m.world (trapRequest m) 0 entry now) := by
  rw [trapIgnored_iff]
  by_cases hecall : IsEcall (m.csrs .mcause)
  · exact iff_of_true (fun hnot => absurd hecall hnot) (Or.inl hecall)
  · rw [or_iff_right hecall]
    exact ⟨fun h => h hecall, fun h _ => h⟩

/-- A timer interrupt in code whose registers hold the numbers of a retype. -/
def timerTrap : Machine Kernel :=
  { yieldTrap 0 with
    regs := fun r =>
      match r with
      | .sp => 0x80500000
      | .a1 => 0x600
      | .a2 => 5
      | .a3 => 4096
      | .a7 => 5
      | _ => 0
    csrs := fun c =>
      match c with
      | .mscratch => 0x80200000
      | .mepc => 0x80001000
      | .mcause => 0x8000000000000007 }

theorem timerTrap_request : trapRequest timerTrap = fallbackRetype := rfl

theorem timerTrap_world : timerTrap.world = bootKernel plainBoot := rfl

/-- The interrupt puts a Frame capability into slot 6 of the root CNode. -/
theorem timer_interrupt_retypes :
    ¬ IsEcall (timerTrap.csrs .mcause) ∧ ¬ TrapIgnored 0x80000100 0 0 timerTrap := by
  refine ⟨by decide, fun hignored => ?_⟩
  rw [trapIgnored_iff, ← syscallHandler_no_trace_iff, timerTrap_request, timerTrap_world] at hignored
  have hslot : ((bootKernel plainBoot).root.slots 6).isValid = 0 := by decide +kernel
  have hretype : (syscallHandler (bootKernel plainBoot) fallbackRetype 0 0 0).map
      (fun r => (r.2.2.root.slots 6).isValid) = some 1 := by decide +kernel
  rcases hignored with hnull | ⟨e, f', k', hret, hsame, -⟩
  · exact absurd hnull (by decide)
  · rw [hret, Option.map_some, Kernel.root, hsame.cnodes, ← Kernel.root, hslot] at hretype
    cases hretype

end Moonlight
