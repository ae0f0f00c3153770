/-
Process destruction.

`process_destroy` takes the thread out of every endpoint of `g_endpoints`, zeroes the
CSpace it points to, revokes and deletes the MDB node it finds under the thread's id,
unbinds the scheduling context and scrubs the TCB.  The two walks over the MDB are the
only loops that need not end, so the function runs on fuel for them.
-/
import Moonlight.Syscall.Boot

namespace Moonlight

def maxEndpoints : Nat := 64

/-! ### Endpoints -/

namespace Endpoint

/-- The thread stops waiting for a message. -/
def dropReceiver (ep : Endpoint) (tcbId : UInt32) : Endpoint :=
  if ep.hasReceiver = true ∧ ep.receiverTcb = tcbId then
    { ep with hasReceiver := false, pending := false, receiverTcb := 0xFFFFFFFF }
  else ep

/-- The cell of the ring `k` places behind the head. -/
def cell (ep : Endpoint) (k : Nat) : Nat := (ep.qHead.toNat + k) % 16

/-- The shifting loop, with the rounds it has left and the place it has reached. -/
def shiftFrom : Nat → Endpoint → Nat → Endpoint
  | 0, ep, _ => ep
  | n + 1, ep, k =>
      shiftFrom n
        { ep with
          queue := Function.update ep.queue (ep.cell k) (ep.queue (ep.cell (k + 1)))
          queueMsgs := Function.update ep.queueMsgs (ep.cell k) (ep.queueMsgs (ep.cell (k + 1))) }
        (k + 1)

/-- Take entry `q` out of the queue. -/
def removeAt (ep : Endpoint) (q : Nat) : Endpoint :=
  let shifted := shiftFrom (ep.qLen.toNat - 1 - q) ep q
  let len := ep.qLen - 1
  { shifted with
    qLen := len
    qTail := UInt8.ofNat ((ep.qHead.toNat + len.toNat) % 16)
    pending := if len = 0 then false else ep.pending }

/-- The loop over the queue.  Each round either removes an entry or goes one place
further, so the entries not looked at get one fewer. -/
def dropSender (tcbId : UInt32) : Nat → Endpoint → Nat → Endpoint
  | 0, ep, _ => ep
  | n + 1, ep, q =>
      if ep.queue (ep.cell q) = tcbId then dropSender tcbId n (ep.removeAt q) q
      else dropSender tcbId n ep (q + 1)

/-- The body of `endpoint_cleanup_for_tcb`. -/
def cleanup (ep : Endpoint) (tcbId : UInt32) : Endpoint :=
  let ep' := ep.dropReceiver tcbId
  dropSender tcbId ep'.qLen.toNat ep' 0

end Endpoint

def endpointCleanupForTcb (env : BootEnv) (endpoints : UInt64 → Endpoint) (tcbId : UInt32) :
    UInt64 → Endpoint :=
  (List.range maxEndpoints).foldl (fun eps i =>
    let ptr := endpointAddr env (UInt64.ofNat i)
    Function.update eps ptr ((eps ptr).cleanup tcbId)) endpoints

/-- The address of `g_endpoints[i]`. -/
def gEndpoint (env : BootEnv) (i : Fin maxEndpoints) : UInt64 := endpointAddr env (UInt64.ofNat i)

theorem toNat_endpointOffset {i : Nat} (hi : i < maxEndpoints) :
    (4728 * UInt64.ofNat i).toNat = 4728 * i := by
  have hlt : i < 64 := hi
  rw [UInt64.toNat_mul, UInt64.toNat_ofNat_of_lt' (Nat.lt_trans hlt (by decide))]
  show 4728 * i % 2 ^ 64 = _
  omega

theorem endpointAddr_inj {env : BootEnv} {i j : Nat} (hi : i < maxEndpoints) (hj : j < maxEndpoints)
    (h : endpointAddr env (UInt64.ofNat i) = endpointAddr env (UInt64.ofNat j)) : i = j := by
  unfold endpointAddr at h
  rw [UInt64.add_right_inj, ← UInt64.toNat_inj, toNat_endpointOffset hi,
    toNat_endpointOffset hj] at h
  omega

theorem gEndpoint_ne {env : BootEnv} {i j : Fin maxEndpoints} (h : i ≠ j) :
    gEndpoint env i ≠ gEndpoint env j :=
  fun heq => h (Fin.ext (endpointAddr_inj i.isLt j.isLt heq))

/-- One round of the loop in `endpoint_cleanup_for_tcb` touches one endpoint. -/
theorem cleanup_foldl (env : BootEnv) (tcbId : UInt32) (l : List Nat) (hnodup : l.Nodup)
    (hl : ∀ j ∈ l, j < maxEndpoints) (eps : UInt64 → Endpoint) (i : Fin maxEndpoints) :
    l.foldl (fun eps j =>
        let ptr := endpointAddr env (UInt64.ofNat j)
        Function.update eps ptr ((eps ptr).cleanup tcbId)) eps (gEndpoint env i) =
      if (i : Nat) ∈ l then (eps (gEndpoint env i)).cleanup tcbId else eps (gEndpoint env i) := by
  induction l generalizing eps with
  | nil => rfl
  | cons j l ih =>
    obtain ⟨hj, hnodup⟩ := List.nodup_cons.mp hnodup
    rw [List.foldl_cons, ih hnodup (fun j hj => hl j (List.mem_cons_of_mem _ hj))]
    by_cases hij : (i : Nat) = j
    · subst hij
      rw [if_neg hj, if_pos List.mem_cons_self]
      exact Function.update_self ..
    · have hne : gEndpoint env i ≠ endpointAddr env (UInt64.ofNat j) :=
        fun heq => hij (endpointAddr_inj i.isLt (hl j List.mem_cons_self) heq)
      simp only [Function.update_of_ne hne, List.mem_cons, hij, false_or]

theorem endpointCleanupForTcb_apply (env : BootEnv) (eps : UInt64 → Endpoint) (tcbId : UInt32)
    (i : Fin maxEndpoints) :
    endpointCleanupForTcb env eps tcbId (gEndpoint env i) = (eps (gEndpoint env i)).cleanup tcbId := by
  rw [endpointCleanupForTcb, cleanup_foldl env tcbId _ List.nodup_range
    (fun j hj => List.mem_range.mp hj), if_pos (List.mem_range.mpr i.isLt)]

/-! ### The function -/

/-- Every valid slot is zeroed and the counter reset. -/
def CNode.scrub (cn : CNode) : CNode :=
  { cn with
    slots := fun i =>
      if i < maxCapsPerCnode.toNat ∧ (cn.slots i).isValid ≠ 0 then Cap.zero else cn.slots i
    used := 0 }

def scrubCspace (cnodes : CNodeRef → CNode) : Option CNodeRef → CNodeRef → CNode
  | none => cnodes
  | some cspace => Function.update cnodes cspace (cnodes cspace).scrub

/-- Revoke and delete the node found under the thread's id, if there is one.  Both
results are discarded. -/
def mdbReclaim (fuel : Nat) (mdb : Mdb) (tcbId : UInt32) : Option Mdb :=
  let idx := mdbLookup mdb 0 tcbId
  if idx ≠ Mdb.nil then
    (mdbRevoke fuel mdb idx).bind fun revoked => (mdbDelete fuel revoked.2 idx).map Prod.snd
  else some mdb

/-- What is left once the MDB has been dealt with. -/
def Kernel.withoutThread (k : Kernel) (env : BootEnv) (tcbId : UInt32) (mdb : Mdb) : Kernel :=
  let t := k.tcbs.threads tcbId.toNat
  let sc := t.schedContext
  { k with
    endpoints := endpointCleanupForTcb env k.endpoints tcbId
    cnodes := scrubCspace k.cnodes t.cspace
    mdb := mdb
    sched :=
      if sc < maxSchedContexts then
        k.sched.setContext sc.toNat { k.sched.contexts sc.toNat with bound := false }
      else k.sched
    tcbs := { k.tcbs.set tcbId.toNat Tcb.zero with count := k.tcbs.count - 1 } }

/-- `process_destroy` on the globals. -/
def processDestroy (fuel : Nat) (env : BootEnv) (k : Kernel) (tcbId : UInt32) :
    Option (KError × Kernel) :=
  if tcbId ≥ maxTcbs then some (.invalidArg, k)
  else if tcbIsFree (k.tcbs.threads tcbId.toNat) then some (.invalidArg, k)
  else
    (mdbReclaim fuel k.mdb tcbId).map fun mdb => (.ok, k.withoutThread env tcbId mdb)

/-- `process_create` on the globals. -/
def Kernel.create (k : Kernel) (env : BootEnv) (args : ProcessArgs) :
    KError × Option UInt32 × Kernel :=
  let r := processCreate
    { tcbs := k.tcbs, alloc := k.mem.allocs env.gAlloc, sched := k.sched, mdb := k.mdb } args
  (r.1, r.2.1,
    { k with
      tcbs := r.2.2.tcbs
      sched := r.2.2.sched
      mdb := r.2.2.mdb
      mem := { k.mem with allocs := Function.update k.mem.allocs env.gAlloc r.2.2.alloc } })

/-! ### When a thread is destroyed -/

/-- The thread exists. -/
def Occupied (k : Kernel) (tcbId : UInt32) : Prop :=
  tcbId < maxTcbs ∧ tcbIsFree (k.tcbs.threads tcbId.toNat) = false

theorem processDestroy_occupied {k : Kernel} {tcbId : UInt32} (h : Occupied k tcbId) (fuel : Nat)
    (env : BootEnv) :
    processDestroy fuel env k tcbId =
      (mdbReclaim fuel k.mdb tcbId).map fun mdb => (.ok, k.withoutThread env tcbId mdb) := by
  rw [processDestroy, if_neg (UInt32.not_le.mpr h.1), if_neg (by rw [h.2]; decide)]

theorem processDestroy_free {k : Kernel} {tcbId : UInt32} (h : ¬ Occupied k tcbId) (fuel : Nat)
    (env : BootEnv) : processDestroy fuel env k tcbId = some (.invalidArg, k) := by
  unfold processDestroy
  by_cases hid : tcbId ≥ maxTcbs
  · rw [if_pos hid]
  · have hfree : tcbIsFree (k.tcbs.threads tcbId.toNat) = true := by
      by_contra hne
      exact h ⟨UInt32.not_le.mp hid, by simpa using hne⟩
    rw [if_neg hid, if_pos hfree]

end Moonlight
