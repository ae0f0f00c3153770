/-
What a rejected creation costs.

`process_create` takes a frame for the stack first and looks for a scheduling context after
that.  When no context can be bound, or the partition would be overcommitted, it scrubs the
TCB and takes the context back; nothing gives the frame back.  The scrubbing itself is
visible in a TCB that counts as free but still holds something.
-/
import Moonlight.Memory.FrameRanges
import Moonlight.Process.Create

namespace Moonlight

/-- The memory that is left, the threads, the set of bound contexts and the MDB are as they
were. -/
structure ConsumesNothing (s s' : ProcessTables) : Prop where
  next : s'.alloc.next = s.alloc.next
  frameCount : s'.alloc.frameCount = s.alloc.frameCount
  tcbs : s'.tcbs = s.tcbs
  contexts : ∀ i, i < maxSchedContexts.toNat →
    (s'.sched.contexts i).bound = (s.sched.contexts i).bound
  mdb : s'.mdb = s.mdb

/-- The frame for the stack. -/
def ProcessArgs.stackFrame (args : ProcessArgs) : FrameRequest :=
  { partition := args.partitionId, size := args.stackSize }

/-- Taking the frame leaves the bump pointer where it is and is not counted. -/
def FrameCostsNothing (a : FrameAlloc) (r : FrameRequest) : Prop :=
  512 ≤ a.frameCount ∧ (4096 * a.skip r.partition + r.size.toNat) % 2 ^ 64 = 0

section
variable {s : ProcessTables} {args : ProcessArgs} {i : Nat}

theorem FrameAlloc.next_eq_iff {a a' : FrameAlloc} {r : FrameRequest}
    (hnext : a'.next.toNat = a.frameEnd r % 2 ^ 64) :
    a'.next = a.next ↔ (4096 * a.skip r.partition + r.size.toNat) % 2 ^ 64 = 0 := by
  have hlt := a.next.toNat_lt
  have hend : a.frameEnd r = a.next.toNat + 4096 * a.skip r.partition + r.size.toNat := rfl
  rw [← UInt64.toNat_inj, hnext, hend]
  omega

theorem frameCount_eq_iff (n : UInt32) : (if n < 512 then n + 1 else n) = n ↔ 512 ≤ n := by
  split_ifs with hlt
  · refine iff_of_false (fun heq => ?_) (UInt32.not_le.mpr hlt)
    have hlt' : n.toNat < 512 := UInt32.lt_iff_toNat_lt.mp hlt
    have hsucc := congrArg UInt32.toNat heq
    rw [UInt32.toNat_add] at hsucc
    have hone : (1 : UInt32).toNat = 1 := rfl
    omega
  · exact iff_of_true rfl (UInt32.not_lt.mp hlt)

/-- The allocator after the frame for the stack has been taken. -/
theorem CreateStarts.alloc_kept_iff (h : CreateStarts s args i) :
    ((allocFrame s.alloc args.partitionId args.stackSize).2.2.next = s.alloc.next ∧
      (allocFrame s.alloc args.partitionId args.stackSize).2.2.frameCount = s.alloc.frameCount) ↔
    FrameCostsNothing s.alloc args.stackFrame := by
  obtain ⟨-, c, a', heq, -, hnext, -, hcount⟩ | ⟨-, e, hne, heq⟩ :=
    allocFrame_accepted_cases s.alloc args.stackFrame
  · have heq' : allocFrame s.alloc args.partitionId args.stackSize = (.ok, some c, a') := heq
    rw [heq', hcount, frameCount_eq_iff, FrameAlloc.next_eq_iff hnext]
    exact and_comm
  · have hok := h.frame
    have heq' : allocFrame s.alloc args.partitionId args.stackSize = (e, none, s.alloc) := heq
    rw [heq'] at hok
    exact absurd hok hne

theorem TcbTable.set_eq_self_iff (tcbs : TcbTable) (i : Nat) (t : Tcb) :
    tcbs.set i t = tcbs ↔ tcbs.threads i = t := by
  constructor
  · intro heq
    rw [← heq, TcbTable.set_self]
  · intro hi
    rw [← hi, TcbTable.set, Function.update_eq_self]

/-- A creation that has started and cannot succeed scrubs the TCB and keeps the frame. -/
theorem CreateStarts.abandoned (h : CreateStarts s args i) (hnot : ∀ sc, ¬ CreateSucceeds s args i sc) :
    ∃ e sched, e ≠ .ok ∧ s.sched.SameBound sched ∧ processCreate s args =
      (e, none,
        { s with
          tcbs := s.tcbs.set i Tcb.zero
          alloc := (allocFrame s.alloc args.partitionId args.stackSize).2.2
          sched := sched }) := by
  have hbudget : ¬ (args.budgetUs > args.periodUs ∨ args.budgetUs = 0) :=
    not_or.mpr ⟨UInt64.not_lt.mpr h.budget.1, h.budget.2⟩
  unfold processCreate
  rw [if_neg (UInt32.not_le.mpr h.partition), if_neg hbudget]
  simp only [h.thread]
  obtain ⟨e, hne, halloc⟩ | ⟨stack, alloc, _, halloc, -⟩ :=
    allocFrame_cases s.alloc args.partitionId args.stackSize
  · exact absurd h.frame (by rw [halloc]; exact hne)
  simp only [halloc]
  obtain ⟨sc, hcontext, hallowed, hbind⟩ | ⟨-, e, sc, hne, hbind⟩ :=
    bindFreeContext_cases s.sched (UInt32.ofNat i) args
  · simp only [hbind]
    split_ifs with hsched
    · exact absurd ⟨h, hcontext, hallowed, hsched⟩ (hnot sc)
    · refine ⟨.invalidArg, _, by decide, ?_, rfl⟩
      rw [SchedState.setContext_setContext]
      exact SchedState.sameBound_setContext (by simpa using List.find?_some hcontext) rfl
  · simp only [hbind]
    cases e <;> first | exact absurd rfl hne | exact ⟨_, _, hne, .refl s.sched, rfl⟩

theorem SchedState.SameBound.bound_eq {s s' : SchedState} (h : s.SameBound s') (i : Nat) :
    (s'.contexts i).bound = (s.contexts i).bound := by
  rcases h.contexts i with hsame | ⟨hfree, hfree'⟩
  · rw [hsame]
  · rw [hfree, hfree']

end

/-- A rejected creation consumes nothing exactly when it is rejected before it takes the frame
for its stack, or the frame costs nothing and the TCB it scrubs was zero already. -/
theorem rejected_create_consumes_nothing_iff (s : ProcessTables) (args : ProcessArgs) :
    ((processCreate s args).1 ≠ .ok → ConsumesNothing s (processCreate s args).2.2) ↔
    ∀ i, CreateStarts s args i → (∃ sc, CreateSucceeds s args i sc) ∨
      FrameCostsNothing s.alloc args.stackFrame ∧ s.tcbs.threads i = Tcb.zero := by
  by_cases habandoned : ∃ i, CreateStarts s args i ∧ ∀ sc, ¬ CreateSucceeds s args i sc
  · obtain ⟨i, hstarts, hnot⟩ := habandoned
    obtain ⟨e, sched, hne, hsame, heq⟩ := hstarts.abandoned hnot
    rw [heq, forall_prop_of_true hne]
    constructor
    · intro hnothing j hj
      obtain rfl := hj.unique hstarts
      refine Or.inr ⟨hstarts.alloc_kept_iff.mp ⟨hnothing.next, hnothing.frameCount⟩, ?_⟩
      exact (TcbTable.set_eq_self_iff ..).mp hnothing.tcbs
    · intro hcond
      obtain ⟨sc, hsucceeds⟩ | ⟨hframe, hzero⟩ := hcond i hstarts
      · exact absurd hsucceeds (hnot sc)
      · obtain ⟨hnext, hcount⟩ := hstarts.alloc_kept_iff.mpr hframe
        exact ⟨hnext, hcount, (TcbTable.set_eq_self_iff ..).mpr hzero, fun j _ => hsame.bound_eq j, rfl⟩
  · have hcond : ∀ i, CreateStarts s args i → ∃ sc, CreateSucceeds s args i sc := by
      intro i hstarts
      by_contra hnone
      exact habandoned ⟨i, hstarts, not_exists.mp hnone⟩
    refine iff_of_true (fun hne => ?_) fun i hstarts => Or.inl (hcond i hstarts)
    have houtcome := processCreate_outcome s args
    generalize processCreate s args = r at houtcome hne ⊢
    cases houtcome with
    | refused => exact ⟨rfl, rfl, rfl, fun _ _ => rfl, rfl⟩
    | abandoned hstarts hnot _ =>
      obtain ⟨sc, hsucceeds⟩ := hcond _ hstarts
      exact absurd hsucceeds (hnot sc)
    | created => exact absurd rfl hne

/-- Two partitions, and no process. -/
def admissionTables : ProcessTables :=
  { tcbs := { threads := fun _ => Tcb.zero, count := 0 }
    alloc := allocInit 0x80000000 0x1000000
    sched := (schedPartitionCreate (schedPartitionCreate schedInit 0 0 6000 1).2 1 6000 4000 3).2
    mdb := mdbInit }

def admissionArgs (budget : UInt64) : ProcessArgs :=
  { partitionId := 1, budgetUs := budget, periodUs := 4000, priority := 10, pc := 0x80200000
    spTop := 0x80300000, stackSize := 4096 }

/-- A second process would overcommit partition 1, and its stack is gone all the same. -/
theorem rejected_create_keeps_frame :
    let s := (processCreate admissionTables (admissionArgs 1000)).2.2
    (processCreate admissionTables (admissionArgs 1000)).1 = .ok ∧
      (processCreate s (admissionArgs 3500)).1 = .invalidArg ∧
      ¬ ConsumesNothing s (processCreate s (admissionArgs 3500)).2.2 := by
  intro s
  refine ⟨by decide +kernel, by decide +kernel, fun h => ?_⟩
  exact absurd h.next (by decide +kernel)

end Moonlight
