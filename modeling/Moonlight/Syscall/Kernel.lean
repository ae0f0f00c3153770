/-
The kernel's global state and the invocation handler.

Objects are reached through raw addresses that capabilities carry.  A thread
pointer that hits an entry of `g_tcbs.threads` designates that thread; any other
pointer designates a TCB of its own, kept in `heapTcbs`.  Endpoints and address
spaces are kept by address.  Each kind has a map of its own, which stands for the memory
as long as no two objects overlap.  Nothing in the code sees to that: retypes of one
Untyped all start at its first byte.  `ObjectsApart` is the assumption by name.
-/
import Moonlight.Capability.Mdb
import Moonlight.Ipc.Endpoint
import Moonlight.Memory.VSpace
import Moonlight.Sched.State

namespace Moonlight

structure Kernel where
  cnodes : CNodeRef → CNode
  mdb : Mdb
  tcbs : TcbTable
  heapTcbs : UInt64 → Tcb
  gTcbs : UInt64
  endpoints : UInt64 → Endpoint
  sched : SchedState
  vspaces : UInt64 → VSpace
  mem : Memory

namespace Kernel

/-- `g_root_cnode`. -/
def root (k : Kernel) : CNode := k.cnodes .root

def setRoot (k : Kernel) (cn : CNode) : Kernel :=
  { k with cnodes := Function.update k.cnodes .root cn }

@[simp] theorem setRoot_root (k : Kernel) (cn : CNode) : (k.setRoot cn).root = cn := by
  simp only [root, setRoot, Function.update_self]

/-- The index of the thread at this address, with `sizeof(tcb_t) = 432`. -/
def threadAt (k : Kernel) (ptr : UInt64) : Option Nat :=
  if (ptr - k.gTcbs) % 432 = 0 ∧ (ptr - k.gTcbs) / 432 < 128 then
    some ((ptr - k.gTcbs) / 432).toNat
  else none

def tcbAt (k : Kernel) (ptr : UInt64) : Tcb :=
  match k.threadAt ptr with
  | some i => k.tcbs.threads i
  | none => k.heapTcbs ptr

def setTcbAt (k : Kernel) (ptr : UInt64) (t : Tcb) : Kernel :=
  match k.threadAt ptr with
  | some i => { k with tcbs := k.tcbs.set i t }
  | none => { k with heapTcbs := Function.update k.heapTcbs ptr t }

/-- `g_tcbs.threads[i] = t`. -/
def setThread (k : Kernel) (i : UInt32) (t : Tcb) : Kernel :=
  { k with tcbs := k.tcbs.set i.toNat t }

end Kernel

/-- The globals before any capability is handed out: the root CNode after
`cnode_init(0, 8)`, the MDB after `mdb_init`, everything else zero. -/
def Kernel.initial (gTcbs : UInt64) (sched : SchedState) (mem : Memory)
    (vspaces : UInt64 → VSpace) : Kernel :=
  { cnodes := fun _ => (cnodeInit CNode.zero 0 8).2, mdb := mdbInit
    tcbs := { threads := fun _ => Tcb.zero, count := 0 }
    heapTcbs := fun _ => Tcb.zero, gTcbs := gTcbs, endpoints := fun _ => Endpoint.zero
    sched := sched, vspaces := vspaces, mem := mem }

/-- The Untyped capability `kernel_boot` makes for the root CNode. -/
def bootUntyped : Cap :=
  { type := .untyped, rights := 0xFF, badge := 0, isSealed := 1, isValid := 1, color := 0
    u := { w0 := 0x90000000, w1 := 0x400000, w2 := 0, w3 := 0 }
    hwCap := { base := 0x90000000, top := 0x90400000, addr := 0x90000000, perms := 0, otype := 0,
               tag := 1, sealed := 1 } }

/-- The destination of a retype: bits 8 to 15 of the first argument, with slot 5
for zero. -/
def retypeDest (arg1 : UInt64) : UInt32 :=
  let dest := ((arg1 >>> 8) &&& 0xFF).toUInt32
  if dest = 0 then 5 else dest

def invokeRetype (k : Kernel) (cap : Cap) (arg1 arg2 arg3 : UInt64) : KError × Kernel :=
  let newType := CapType.ofWord arg2
  let dest := retypeDest arg1
  if ¬ capCanRetype cap newType arg3 then (.invalidArg, k)
  else
    let newCap := capRetype cap newType cap.u.untypedPaddr arg3
    if newCap.isValid = 0 then (.invalidCap, k)
    else if dest ≥ maxCapsPerCnode then (.invalidArg, k)
    else if (k.root.slots dest.toNat).isValid ≠ 0 then (.revokeNeeded, k)
    else
      (.ok,
        { k.setRoot (k.root.addSlot dest.toNat newCap) with
          mdb := (mdbInsert k.mdb 0 dest newCap).2.2 })

/-- `INV_TCB_RESUME`.  On a null pointer both functions it may call do nothing. -/
def invokeTcbResume (k : Kernel) (cap : Cap) : KError × Kernel :=
  if cap.type ≠ .tcb then (.invalidCap, k)
  else if cap.u.tcbPtr = 0 then (.ok, k)
  else
    let t := k.tcbAt cap.u.tcbPtr
    if t.state = .inactive then (.ok, k.setTcbAt cap.u.tcbPtr (tcbResume t))
    else (.ok, k.setTcbAt cap.u.tcbPtr (tcbWakeFromIpc t).2)

/-- `INV_VSPACE_MAP` and its alias `INV_FRAME_MAP`. -/
def invokeVspaceMap (k : Kernel) (cap : Cap) (arg2 arg3 : UInt64) : KError × Kernel :=
  if cap.type ≠ .vspace then (.invalidCap, k)
  else
    match cnodeLookup k.root (arg3 &&& 0xFF).toUInt32 with
    | none => (.invalidCap, k)
    | some frame =>
      if frame.type ≠ .frame then (.invalidCap, k)
      else if cap.u.rootPt = 0 then (.invalidArg, k)
      else
        let r := vspaceMap k.mem (k.vspaces cap.u.rootPt) arg2 frame.u.framePaddr pageSize
          frame.u.framePerms frame.u.frameColor
        (r.1,
          { k with mem := r.2.1, vspaces := Function.update k.vspaces cap.u.rootPt r.2.2 })

def invokeVspaceUnmap (k : Kernel) (cap : Cap) (arg2 arg3 : UInt64) : KError × Kernel :=
  if cap.type ≠ .vspace then (.invalidCap, k)
  else if cap.u.rootPt = 0 then (.invalidArg, k)
  else
    let r := vspaceUnmap k.mem (k.vspaces cap.u.rootPt) arg2 arg3
    (r.1, { k with mem := r.2 })

/-- `INV_TCB_CONFIGURE` looks up two slots only for their types: the thread always
gets the root CNode as its CSpace. -/
def invokeTcbConfigure (k : Kernel) (cap : Cap) (arg1 arg2 arg3 : UInt64) : KError × Kernel :=
  if cap.type ≠ .tcb then (.invalidCap, k)
  else
    match cnodeLookup k.root ((arg1 >>> 16) &&& 0xFF).toUInt32 with
    | none => (.invalidCap, k)
    | some cspaceCap =>
      if cspaceCap.type ≠ .cnode then (.invalidCap, k)
      else
        match cnodeLookup k.root (arg2 &&& 0xFF).toUInt32 with
        | none => (.invalidCap, k)
        | some vspaceCap =>
          if vspaceCap.type ≠ .vspace then (.invalidCap, k)
          else if cap.u.tcbPtr = 0 then (.invalidArg, k)
          else
            (.ok, k.setTcbAt cap.u.tcbPtr
              (tcbConfigure (k.tcbAt cap.u.tcbPtr) .root vspaceCap.u.rootPt
                (arg3 &&& 0xFF).toUInt32 ((arg3 >>> 8) &&& 0xFF).toUInt32))

def invokeTcbSuspend (k : Kernel) (cap : Cap) : KError × Kernel :=
  if cap.type ≠ .tcb then (.invalidCap, k)
  else if cap.u.tcbPtr = 0 then (.ok, k)
  else (.ok, k.setTcbAt cap.u.tcbPtr (tcbSuspend (k.tcbAt cap.u.tcbPtr)))

def invokeSchedBind (k : Kernel) (arg1 arg2 arg3 : UInt64) : KError × Kernel :=
  let r := schedContextBind k.sched ((arg1 >>> 8) &&& 0xFF).toUInt32
    ((arg1 >>> 16) &&& 0xFF).toUInt32 ((arg1 >>> 24) &&& 0xFF).toUInt32 arg2 arg3
    ((arg1 >>> 32) &&& 0xFF).toUInt8
  (r.1, { k with sched := r.2 })

/-- The operations on the root CNode share one guard and one way to store their
result. -/
def invokeCnode (k : Kernel) (cap : Cap) (r : KError × (CNodeRef → CNode)) : KError × Kernel :=
  if cap.type ≠ .cnode then (.invalidCap, k) else (r.1, { k with cnodes := r.2 })

/-- `handle_invoke` on a non-null capability. -/
def handleInvoke (k : Kernel) (cap : Cap) (op : InvokeOp) (arg1 arg2 arg3 : UInt64) :
    KError × Kernel :=
  let srcSlot := (arg2 &&& 0xFF).toUInt32
  let dstSlot := (arg3 &&& 0xFF).toUInt32
  if ¬ capIsValid cap then (.invalidCap, k)
  else
    match op with
    | .untypedRetype => invokeRetype k cap arg1 arg2 arg3
    | .cnodeCopy => invokeCnode k cap (cnodeCopy k.cnodes .root dstSlot .root srcSlot cap.rights)
    | .cnodeMint =>
        invokeCnode k cap (cnodeMint k.cnodes .root dstSlot .root srcSlot cap.rights
          ((arg2 >>> 8) &&& 0xFF).toUInt32)
    | .cnodeMove => invokeCnode k cap (cnodeMove k.cnodes .root dstSlot .root srcSlot)
    | .cnodeDelete => invokeCnode k cap (cnodeDelete k.cnodes .root srcSlot)
    | .tcbConfigure => invokeTcbConfigure k cap arg1 arg2 arg3
    | .tcbResume => invokeTcbResume k cap
    | .tcbSuspend => invokeTcbSuspend k cap
    | .vspaceMap => invokeVspaceMap k cap arg2 arg3
    | .vspaceUnmap => invokeVspaceUnmap k cap arg2 arg3
    | .frameMap => invokeVspaceMap k cap arg2 arg3
    | .schedBind => invokeSchedBind k arg1 arg2 arg3
    | .other => (.invalidArg, k)

/-! ### What an invocation can do -/

theorem toNat_lowByte (w : UInt64) : (w &&& 0xFF).toUInt32.toNat < 256 := by
  rw [UInt64.toNat_toUInt32, UInt64.toNat_and]
  have hle : w.toNat &&& 255 ≤ 255 := Nat.and_le_right
  show (w.toNat &&& 255) % 2 ^ 32 < 256
  omega

theorem lowByte_lt (w : UInt64) : (w &&& 0xFF).toUInt32 < maxCapsPerCnode :=
  UInt32.lt_iff_toNat_lt.mpr (toNat_lowByte w)

theorem retypeDest_lt (arg1 : UInt64) : retypeDest arg1 < maxCapsPerCnode := by
  unfold retypeDest
  simp only
  split_ifs
  · decide
  · exact lowByte_lt _

/-- The guard of a retype: the capability, the type, the size and a free slot. -/
def RetypeAllowed (k : Kernel) (cap : Cap) (arg1 arg2 arg3 : UInt64) : Prop :=
  capIsValid cap = true ∧ capCanRetype cap (CapType.ofWord arg2) arg3 = true ∧
    (k.root.slots (retypeDest arg1).toNat).isValid = 0

instance (k : Kernel) (cap : Cap) (arg1 arg2 arg3 : UInt64) :
    Decidable (RetypeAllowed k cap arg1 arg2 arg3) := inferInstanceAs (Decidable (_ ∧ _ ∧ _))

/-- The state a successful retype leaves. -/
def Kernel.retype (k : Kernel) (cap : Cap) (arg1 arg2 arg3 : UInt64) : Kernel :=
  let newCap := capRetype cap (CapType.ofWord arg2) cap.u.untypedPaddr arg3
  { k.setRoot (k.root.addSlot (retypeDest arg1).toNat newCap) with
    mdb := (mdbInsert k.mdb 0 (retypeDest arg1) newCap).2.2 }

theorem Kernel.retype_root (k : Kernel) (cap : Cap) (arg1 arg2 arg3 : UInt64) :
    (k.retype cap arg1 arg2 arg3).root = k.root.addSlot (retypeDest arg1).toNat
      (capRetype cap (CapType.ofWord arg2) cap.u.untypedPaddr arg3) :=
  k.setRoot_root _

theorem handleInvoke_of_invalid {cap : Cap} (h : ¬ capIsValid cap = true) (k : Kernel)
    (op : InvokeOp) (arg1 arg2 arg3 : UInt64) :
    handleInvoke k cap op arg1 arg2 arg3 = (.invalidCap, k) := by
  simp only [handleInvoke, if_pos h]

theorem handleInvoke_retype_cases (k : Kernel) (cap : Cap) (arg1 arg2 arg3 : UInt64) :
    (RetypeAllowed k cap arg1 arg2 arg3 ∧
      handleInvoke k cap .untypedRetype arg1 arg2 arg3 = (.ok, k.retype cap arg1 arg2 arg3)) ∨
    (¬ RetypeAllowed k cap arg1 arg2 arg3 ∧
      ∃ e, e ≠ .ok ∧ handleInvoke k cap .untypedRetype arg1 arg2 arg3 = (e, k)) := by
  by_cases hvalid : capIsValid cap = true
  · simp only [handleInvoke, hvalid, not_true_eq_false, if_false, invokeRetype]
    by_cases hcan : capCanRetype cap (CapType.ofWord arg2) arg3 = true
    · have hnew : (capRetype cap (CapType.ofWord arg2) cap.u.untypedPaddr arg3).isValid = 1 :=
        capRetype_isValid hcan
      have hdest : ¬ retypeDest arg1 ≥ maxCapsPerCnode := UInt32.not_le.mpr (retypeDest_lt arg1)
      by_cases hfree : (k.root.slots (retypeDest arg1).toNat).isValid = 0
      · refine Or.inl ⟨⟨hvalid, hcan, hfree⟩, ?_⟩
        simp [hcan, hnew, hdest, hfree, Kernel.retype]
      · refine Or.inr ⟨fun h => hfree h.2.2, .revokeNeeded, by decide, ?_⟩
        simp [hcan, hnew, hdest, hfree]
    · exact Or.inr ⟨fun h => hcan h.2.1, .invalidArg, by decide, by simp [hcan]⟩
  · exact Or.inr ⟨fun h => hvalid h.1, .invalidCap, by decide, handleInvoke_of_invalid hvalid ..⟩

/-- The capability admits CNode invocations. -/
def IsCnodeCap (cap : Cap) : Prop := capIsValid cap = true ∧ cap.type = .cnode

theorem invokeCnode_of_cnode {k : Kernel} {cap : Cap} (h : cap.type = .cnode)
    (r : KError × (CNodeRef → CNode)) :
    invokeCnode k cap r = (r.1, { k with cnodes := r.2 }) := by
  simp [invokeCnode, h]

theorem handleInvoke_not_cnode {cap : Cap} (h : ¬ IsCnodeCap cap) (k : Kernel) {op : InvokeOp}
    (hop : op = .cnodeCopy ∨ op = .cnodeMint ∨ op = .cnodeMove ∨ op = .cnodeDelete)
    (arg1 arg2 arg3 : UInt64) : handleInvoke k cap op arg1 arg2 arg3 = (.invalidCap, k) := by
  by_cases hvalid : capIsValid cap = true
  · have htype : cap.type ≠ .cnode := fun ht => h ⟨hvalid, ht⟩
    rcases hop with rfl | rfl | rfl | rfl <;>
      simp only [handleInvoke, hvalid, not_true_eq_false, if_false, invokeCnode, htype, ne_eq,
        not_false_eq_true, if_true]
  · exact handleInvoke_of_invalid hvalid ..

theorem handleInvoke_copy_cases (k : Kernel) (cap : Cap) (arg1 arg2 arg3 : UInt64) :
    (∃ sc, IsCnodeCap cap ∧
      CopyAllowed k.cnodes .root (arg3 &&& 0xFF).toUInt32 .root (arg2 &&& 0xFF).toUInt32
        cap.rights sc ∧
      handleInvoke k cap .cnodeCopy arg1 arg2 arg3 =
        (.ok, k.setRoot (k.root.addSlot (arg3 &&& 0xFF).toUInt32.toNat
          { sc with rights := cap.rights }))) ∨
    ((∀ sc, ¬ (IsCnodeCap cap ∧
      CopyAllowed k.cnodes .root (arg3 &&& 0xFF).toUInt32 .root (arg2 &&& 0xFF).toUInt32
        cap.rights sc)) ∧
      ∃ e, e ≠ .ok ∧ handleInvoke k cap .cnodeCopy arg1 arg2 arg3 = (e, k)) := by
  by_cases hcap : IsCnodeCap cap
  · simp only [handleInvoke, hcap.1, not_true_eq_false, if_false, invokeCnode_of_cnode hcap.2]
    obtain ⟨sc, hallowed, heq⟩ | ⟨hnot, e, hne, heq⟩ := cnodeCopy_cases k.cnodes .root
      (arg3 &&& 0xFF).toUInt32 .root (arg2 &&& 0xFF).toUInt32 cap.rights
    · exact Or.inl ⟨sc, hcap, hallowed, by rw [heq]; rfl⟩
    · exact Or.inr ⟨fun sc h => hnot sc h.2, e, hne, by rw [heq]⟩
  · exact Or.inr ⟨fun sc h => hcap h.1, .invalidCap, by decide,
      handleInvoke_not_cnode hcap k (Or.inl rfl) ..⟩

theorem handleInvoke_mint_cases (k : Kernel) (cap : Cap) (arg1 arg2 arg3 : UInt64) :
    (∃ sc, IsCnodeCap cap ∧
      MintAllowed k.cnodes .root (arg3 &&& 0xFF).toUInt32 .root (arg2 &&& 0xFF).toUInt32
        cap.rights sc ∧
      handleInvoke k cap .cnodeMint arg1 arg2 arg3 =
        (.ok, k.setRoot (k.root.addSlot (arg3 &&& 0xFF).toUInt32.toNat
          { sc with rights := cap.rights, badge := ((arg2 >>> 8) &&& 0xFF).toUInt32 }))) ∨
    ((∀ sc, ¬ (IsCnodeCap cap ∧
      MintAllowed k.cnodes .root (arg3 &&& 0xFF).toUInt32 .root (arg2 &&& 0xFF).toUInt32
        cap.rights sc)) ∧
      ∃ e, e ≠ .ok ∧ handleInvoke k cap .cnodeMint arg1 arg2 arg3 = (e, k)) := by
  by_cases hcap : IsCnodeCap cap
  · simp only [handleInvoke, hcap.1, not_true_eq_false, if_false, invokeCnode_of_cnode hcap.2]
    obtain ⟨sc, hallowed, heq⟩ | ⟨hnot, e, hne, heq⟩ := cnodeMint_cases k.cnodes .root
      (arg3 &&& 0xFF).toUInt32 .root (arg2 &&& 0xFF).toUInt32 cap.rights
      ((arg2 >>> 8) &&& 0xFF).toUInt32
    · exact Or.inl ⟨sc, hcap, hallowed, by rw [heq]; rfl⟩
    · exact Or.inr ⟨fun sc h => hnot sc h.2, e, hne, by rw [heq]⟩
  · exact Or.inr ⟨fun sc h => hcap h.1, .invalidCap, by decide,
      handleInvoke_not_cnode hcap k (Or.inr (Or.inl rfl)) ..⟩

theorem handleInvoke_move_cases (k : Kernel) (cap : Cap) (arg1 arg2 arg3 : UInt64) :
    (∃ slot, IsCnodeCap cap ∧
      MoveAllowed k.cnodes .root (arg3 &&& 0xFF).toUInt32 .root (arg2 &&& 0xFF).toUInt32 slot ∧
      handleInvoke k cap .cnodeMove arg1 arg2 arg3 =
        (.ok, k.setRoot ((k.root.setSlot (arg3 &&& 0xFF).toUInt32.toNat
          (k.root.slots slot)).setSlot slot Cap.zero))) ∨
    ((∀ slot, ¬ (IsCnodeCap cap ∧
      MoveAllowed k.cnodes .root (arg3 &&& 0xFF).toUInt32 .root (arg2 &&& 0xFF).toUInt32 slot)) ∧
      ∃ e, e ≠ .ok ∧ handleInvoke k cap .cnodeMove arg1 arg2 arg3 = (e, k)) := by
  by_cases hcap : IsCnodeCap cap
  · simp only [handleInvoke, hcap.1, not_true_eq_false, if_false, invokeCnode_of_cnode hcap.2]
    obtain ⟨slot, moved, hallowed, rfl, heq⟩ | ⟨hnot, e, hne, heq⟩ := cnodeMove_cases k.cnodes .root
      (arg3 &&& 0xFF).toUInt32 .root (arg2 &&& 0xFF).toUInt32
    · refine Or.inl ⟨slot, hcap, hallowed, ?_⟩
      rw [heq, Function.update_idem, Function.update_self]
      rfl
    · exact Or.inr ⟨fun slot h => hnot slot h.2, e, hne, by rw [heq]⟩
  · exact Or.inr ⟨fun slot h => hcap h.1, .invalidCap, by decide,
      handleInvoke_not_cnode hcap k (Or.inr (Or.inr (Or.inl rfl))) ..⟩

theorem handleInvoke_delete_cases (k : Kernel) (cap : Cap) (arg1 arg2 arg3 : UInt64) :
    ((IsCnodeCap cap ∧ DeleteAllowed k.cnodes .root (arg2 &&& 0xFF).toUInt32) ∧
      handleInvoke k cap .cnodeDelete arg1 arg2 arg3 =
        (.ok, k.setRoot (k.root.clearSlot (arg2 &&& 0xFF).toUInt32.toNat))) ∨
    (¬ (IsCnodeCap cap ∧ DeleteAllowed k.cnodes .root (arg2 &&& 0xFF).toUInt32) ∧
      ∃ e, e ≠ .ok ∧ handleInvoke k cap .cnodeDelete arg1 arg2 arg3 = (e, k)) := by
  by_cases hcap : IsCnodeCap cap
  · simp only [handleInvoke, hcap.1, not_true_eq_false, if_false, invokeCnode_of_cnode hcap.2]
    obtain ⟨hallowed, heq⟩ | ⟨hnot, e, hne, heq⟩ :=
      cnodeDelete_cases k.cnodes .root (arg2 &&& 0xFF).toUInt32
    · exact Or.inl ⟨⟨hcap, hallowed⟩, by rw [heq]; rfl⟩
    · exact Or.inr ⟨fun h => hnot h.2, e, hne, by rw [heq]⟩
  · exact Or.inr ⟨fun h => hcap h.1, .invalidCap, by decide,
      handleInvoke_not_cnode hcap k (Or.inr (Or.inr (Or.inr rfl))) ..⟩

end Moonlight
