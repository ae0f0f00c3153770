/-
The calls that make, configure, bind and destroy threads.

The TCB table and the scheduling contexts point at each other, and four entry points of
the kernel write to one side or the other.  This module says for each of them when it
takes effect and what it then changes; the modules above it ask what survives a run.
-/
import Moonlight.Process.Lifecycle
import Moonlight.Syscall.Authority

namespace Moonlight

open Mdb (nil)

inductive ProcessCall where
  | create (args : ProcessArgs)
  | destroy (tcbId : UInt32)
  | configure (cap : Cap) (arg1 arg2 arg3 : UInt64)
  | schedBind (cap : Cap) (arg1 arg2 arg3 : UInt64)

/-- The state after the call, with fuel for the walks of `process_destroy`. -/
def processCall (fuel : Nat) (env : BootEnv) (k : Kernel) : ProcessCall → Option Kernel
  | .create args => some (k.create env args).2.2
  | .destroy tcbId => (processDestroy fuel env k tcbId).map Prod.snd
  | .configure cap arg1 arg2 arg3 => some (handleInvoke k cap .tcbConfigure arg1 arg2 arg3).2
  | .schedBind cap arg1 arg2 arg3 => some (handleInvoke k cap .schedBind arg1 arg2 arg3).2

/-- The call returns and leaves `k'`. -/
def ProcessStep (env : BootEnv) (k : Kernel) (c : ProcessCall) (k' : Kernel) : Prop :=
  Fuel.Yields (fun fuel => processCall fuel env k c) k'

variable {env : BootEnv} {k k' : Kernel}

/-- Only the walks of `process_destroy` need not end, so a call that breaks a condition
which destruction meets has a successor. -/
theorem processStep_exists {ok : Kernel → ProcessCall → Prop} (hdestroy : ∀ k t, ok k (.destroy t))
    (env : BootEnv) (k : Kernel) (c : ProcessCall) (hnot : ¬ ok k c) :
    ∃ k', ProcessStep env k c k' := by
  cases c with
  | destroy tcbId => exact absurd (hdestroy k tcbId) hnot
  | _ => exact ⟨_, Fuel.yields_of_forall fun _ => rfl⟩

theorem toNat_ne {t u : UInt32} (h : t ≠ u) : t.toNat ≠ u.toNat := fun heq =>
  h (UInt32.toNat_inj.mp heq)

theorem exists_tcbId {i : Nat} (h : i < maxTcbs.toNat) :
    ∃ tcbId : UInt32, tcbId < maxTcbs ∧ i = tcbId.toNat := by
  have htoNat : (UInt32.ofNat i).toNat = i :=
    UInt32.toNat_ofNat_of_lt' (Nat.lt_trans h (by decide))
  refine ⟨UInt32.ofNat i, ?_, htoNat.symm⟩
  rw [UInt32.lt_iff_toNat_lt, htoNat]
  exact h

/-- Entry `t` of the thread table is `tcb`, and the others are as they were. -/
structure SetsThread (k k' : Kernel) (t : UInt32) (tcb : Tcb) : Prop where
  self : k'.tcbs.threads t.toNat = tcb
  others : ∀ u, u ≠ t → k'.tcbs.threads u.toNat = k.tcbs.threads u.toNat

theorem setsThread_of_set {t : UInt32} {tcb : Tcb}
    (h : k'.tcbs.threads = (k.tcbs.set t.toNat tcb).threads) : SetsThread k k' t tcb := by
  refine ⟨?_, fun u hu => ?_⟩
  · rw [h, TcbTable.set_self]
  · rw [h, TcbTable.set_ne (toNat_ne hu)]

/-! ### Creation -/

/-- The globals as `process_create` gets them. -/
def Kernel.processTables (k : Kernel) (env : BootEnv) : ProcessTables :=
  { tcbs := k.tcbs, alloc := k.mem.allocs env.gAlloc, sched := k.sched, mdb := k.mdb }

/-- A creation that succeeds: thread `t` is filled in and context `sc` is bound to it. -/
structure ProcessCreated (env : BootEnv) (k k' : Kernel) (args : ProcessArgs) (t : UInt32) (sc : Nat)
    (stack : Cap) : Prop where
  succeeds : CreateSucceeds (k.processTables env) args t.toNat sc
  thread : SetsThread k k' t { newTcb t args stack with schedContext := UInt32.ofNat sc }
  sched : k'.sched = (k.processTables env).boundSched args t.toNat sc
  cnodes : k'.cnodes = k.cnodes

/-- Creation is refused; or it zeroes the free TCB once more and gives up; or it succeeds and
is counted. -/
theorem create_outcome (env : BootEnv) (k : Kernel) (args : ProcessArgs) :
    ((∀ i, ¬ CreateStarts (k.processTables env) args i) ∧ (k.create env args).2.1 = none ∧
      (k.create env args).2.2.tcbs = k.tcbs ∧ (k.create env args).2.2.sched = k.sched) ∨
    (∃ t : UInt32, CreateStarts (k.processTables env) args t.toNat ∧
      (∀ sc, ¬ CreateSucceeds (k.processTables env) args t.toNat sc) ∧
      (k.create env args).2.1 = none ∧
      (k.create env args).2.2.tcbs = k.tcbs.set t.toNat Tcb.zero ∧
      k.sched.SameBound (k.create env args).2.2.sched) ∨
    ∃ t sc stack, (k.create env args).2.1 = some t ∧
      (k.create env args).2.2.tcbs.count = k.tcbs.count + 1 ∧
      ProcessCreated env k (k.create env args).2.2 args t sc stack := by
  have houtcome := processCreate_outcome (k.processTables env) args
  have hid : (k.create env args).2.1 = (processCreate (k.processTables env) args).2.1 := rfl
  have htcbs : (k.create env args).2.2.tcbs = (processCreate (k.processTables env) args).2.2.tcbs := rfl
  have hsched : (k.create env args).2.2.sched = (processCreate (k.processTables env) args).2.2.sched :=
    rfl
  have hcnodes : (k.create env args).2.2.cnodes = k.cnodes := rfl
  generalize k.create env args = r' at hid htcbs hsched hcnodes ⊢
  generalize processCreate (k.processTables env) args = r at houtcome hid htcbs hsched
  cases houtcome with
  | refused hnot => exact Or.inl ⟨hnot, hid, htcbs, hsched⟩
  | abandoned hstarts hnot hsame =>
    obtain ⟨t, -, rfl⟩ := exists_tcbId hstarts.lt
    refine Or.inr (Or.inl ⟨t, hstarts, hnot, hid, htcbs, ?_⟩)
    rw [hsched]
    exact hsame
  | @created i sc stack alloc h =>
    obtain ⟨t, -, rfl⟩ := exists_tcbId h.lt
    simp only [ProcessTables.created, UInt32.ofNat_toNat] at hid htcbs
    refine Or.inr (Or.inr ⟨t, sc, stack, hid, by rw [htcbs]; rfl, h, setsThread_of_set ?_, hsched,
      hcnodes⟩)
    rw [htcbs]
    rfl

theorem create_cases (env : BootEnv) (k : Kernel) (args : ProcessArgs) :
    ((∀ i, ¬ CreateStarts (k.processTables env) args i) ∧
      (k.create env args).2.2.tcbs = k.tcbs ∧ (k.create env args).2.2.sched = k.sched) ∨
    (∃ t : UInt32, CreateStarts (k.processTables env) args t.toNat ∧
      (∀ sc, ¬ CreateSucceeds (k.processTables env) args t.toNat sc) ∧
      SetsThread k (k.create env args).2.2 t Tcb.zero ∧
      k.sched.SameBound (k.create env args).2.2.sched) ∨
    ∃ t sc stack, ProcessCreated env k (k.create env args).2.2 args t sc stack := by
  obtain ⟨hnot, -, htcbs, hsched⟩ | ⟨t, hstarts, hnot, -, htcbs, hsched⟩ |
    ⟨t, sc, stack, -, -, hnew⟩ := create_outcome env k args
  · exact Or.inl ⟨hnot, htcbs, hsched⟩
  · exact Or.inr (Or.inl ⟨t, hstarts, hnot, setsThread_of_set (by rw [htcbs]), hsched⟩)
  · exact Or.inr (Or.inr ⟨t, sc, stack, hnew⟩)

theorem bootRoot_noBoundContext (env : BootEnv) : NoBoundContext (bootRoot env).sched :=
  fun _ _ => rfl

/-! ### Destruction -/

theorem withoutThread_releases (env : BootEnv) (k : Kernel) (tcbId : UInt32) (mdb : Mdb) :
    k.sched.Releases (k.withoutThread env tcbId mdb).sched := by
  simp only [Kernel.withoutThread]
  split_ifs
  · exact k.sched.releases_setContext _ rfl
  · exact .refl k.sched

theorem processStep_destroy_cases {tcbId : UInt32} (h : ProcessStep env k (.destroy tcbId) k') :
    k' = k ∨ Occupied k tcbId ∧ ∃ mdb, k' = k.withoutThread env tcbId mdb := by
  by_cases hocc : Occupied k tcbId
  · obtain ⟨mdb, -, heq⟩ := (destroyStep_occupied hocc).mp h
    exact Or.inr ⟨hocc, mdb, heq⟩
  · exact Or.inl ((destroyStep_free hocc).mp h)

/-! ### Configuration -/

/-- The partition `INV_TCB_CONFIGURE` gives the thread. -/
def configurePartition (arg3 : UInt64) : UInt32 := ((arg3 >>> 8) &&& 0xFF).toUInt32

/-- The call passes its checks and designates thread `t` of the table. -/
def Configures (k : Kernel) (cap : Cap) (arg1 arg2 : UInt64) (t : UInt32) : Prop :=
  k.threadAt cap.u.tcbPtr = some t.toNat ∧ ∃ v, ConfigureAllowed k cap arg1 arg2 v

theorem Kernel.threadAt_lt {ptr : UInt64} {i : Nat} (h : k.threadAt ptr = some i) :
    i < maxTcbs.toNat := by
  unfold Kernel.threadAt at h
  split_ifs at h with hptr
  obtain rfl := Option.some.inj h
  exact UInt64.lt_iff_toNat_lt.mp hptr.2

theorem Configures.lt {cap : Cap} {arg1 arg2 : UInt64} {t : UInt32}
    (h : Configures k cap arg1 arg2 t) : t < maxTcbs :=
  UInt32.lt_iff_toNat_lt.mpr (Kernel.threadAt_lt h.1)

theorem Configures.unique {cap : Cap} {arg1 arg2 : UInt64} {t u : UInt32}
    (ht : Configures k cap arg1 arg2 t) (hu : Configures k cap arg1 arg2 u) : t = u :=
  UInt32.toNat_inj.mp (Option.some.inj (ht.1.symm.trans hu.1))

/-- A thread outside the table is not one that a context or `process_destroy` can name. -/
theorem configure_cases (k : Kernel) (cap : Cap) (arg1 arg2 arg3 : UInt64) :
    (∃ t vspaceRoot asid, Configures k cap arg1 arg2 t ∧
      (handleInvoke k cap .tcbConfigure arg1 arg2 arg3).2 =
        { k with
          tcbs := k.tcbs.set t.toNat (tcbConfigure (k.tcbs.threads t.toNat) .root vspaceRoot asid
            (configurePartition arg3)) }) ∨
    ((∀ t, ¬ Configures k cap arg1 arg2 t) ∧
      ∃ heap, (handleInvoke k cap .tcbConfigure arg1 arg2 arg3).2 = { k with heapTcbs := heap }) := by
  obtain ⟨v, hallowed, heq⟩ | ⟨hnot, heq⟩ := handleInvoke_configure_cases k cap arg1 arg2 arg3
  · rw [heq]
    cases hthread : k.threadAt cap.u.tcbPtr with
    | some i =>
      obtain ⟨t, -, rfl⟩ := exists_tcbId (Kernel.threadAt_lt hthread)
      refine Or.inl ⟨t, v.u.rootPt, (arg3 &&& 0xFF).toUInt32, ⟨hthread, v, hallowed⟩, ?_⟩
      simp only [Kernel.setTcbAt, Kernel.tcbAt, hthread]
      rfl
    | none =>
      refine Or.inr ⟨fun t h => ?_, ?_⟩
      · have hsome := hthread.symm.trans h.1
        cases hsome
      · simp only [Kernel.setTcbAt, hthread]
        exact ⟨_, rfl⟩
  · rw [heq]
    refine Or.inr ⟨fun t h => ?_, k.heapTcbs, rfl⟩
    obtain ⟨-, v, hallowed⟩ := h
    exact hnot v hallowed

end Moonlight
