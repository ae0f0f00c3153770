/-
Process creation.

Of `process_create_args_t` the fields `parent_cnode` and `untyped_cptr` are never
read and are left out.
-/
import Moonlight.Capability.Mdb
import Moonlight.Ipc.Tcb
import Moonlight.Memory.Alloc
import Moonlight.Sched.State

namespace Moonlight

/-- `process_create_args_t`. -/
structure ProcessArgs where
  partitionId : UInt32
  budgetUs : UInt64
  periodUs : UInt64
  priority : UInt8
  pc : UInt64
  spTop : UInt64
  stackSize : UInt64

/-- The tables `process_create` works on. -/
structure ProcessTables where
  tcbs : TcbTable
  alloc : FrameAlloc
  sched : SchedState
  mdb : Mdb

/-- A TCB nobody uses: no entry point, no stack, no CSpace. -/
def tcbIsFree (t : Tcb) : Bool := t.pc = 0 ∧ t.sp = 0 ∧ t.cspace = none

/-- The TCB `process_create` fills in, before it has a scheduling context. -/
def newTcb (id : UInt32) (args : ProcessArgs) (stack : Cap) : Tcb :=
  { Tcb.zero with
    id := id
    timePartition := args.partitionId
    priority := args.priority.toUInt32
    pc := args.pc
    sp := args.spTop
    pcc := { base := args.pc &&& 0xFFFFFFFFFFFFF000, top := (args.pc &&& 0xFFFFFFFFFFFFF000) + 0x10000,
             addr := args.pc, perms := 0, otype := 0, tag := 1, sealed := 0 }
    csp := { base := stack.u.framePaddr, top := stack.u.framePaddr + args.stackSize,
             addr := args.spTop, perms := 0, otype := 0, tag := 1, sealed := 0 } }

/-- Bind the first free scheduling context to the new thread. -/
def bindFreeContext (s : SchedState) (id : UInt32) (args : ProcessArgs) :
    KError × Nat × SchedState :=
  match (List.range maxSchedContexts.toNat).find? fun i => !(s.contexts i).bound with
  | none => (.noMem, 0, s)
  | some i =>
    let r := schedContextBind s (UInt32.ofNat i) id args.partitionId args.budgetUs args.periodUs
      args.priority
    (r.1, i, r.2)

/-- `process_create` with non-null pointers.  The option is the id stored through
`out_tcb_id`.  On the later failures the frame stays allocated. -/
def processCreate (s : ProcessTables) (args : ProcessArgs) :
    KError × Option UInt32 × ProcessTables :=
  if args.partitionId ≥ maxPartitions then (.invalidArg, none, s)
  else if args.budgetUs > args.periodUs ∨ args.budgetUs = 0 then (.invalidArg, none, s)
  else
    match (List.range maxTcbs.toNat).find? fun i => tcbIsFree (s.tcbs.threads i) with
    | none => (.noMem, none, s)
    | some i =>
      match allocFrame s.alloc args.partitionId args.stackSize with
      | (.ok, some stack, alloc) =>
        let id := UInt32.ofNat i
        let scrubbed := s.tcbs.set i Tcb.zero
        match bindFreeContext s.sched id args with
        | (.ok, sc, sched) =>
          if schedIsSchedulable sched then
            (.ok, some id,
              { tcbs :=
                  { s.tcbs.set i { newTcb id args stack with schedContext := UInt32.ofNat sc } with
                    count := s.tcbs.count + 1 }
                alloc := alloc
                sched := sched
                mdb := (mdbInsert s.mdb Mdb.nil id stack).2.2 })
          else
            (.invalidArg, none,
              { s with
                tcbs := scrubbed
                alloc := alloc
                sched := sched.setContext sc { sched.contexts sc with bound := false } })
        | (e, _, sched) => (e, none, { s with tcbs := scrubbed, alloc := alloc, sched := sched })
      | (e, _, _) => (e, none, s)

/-! ### What creation can do -/

/-- The arguments are in range, thread `i` is the first free one and there is a frame for the
stack: from here on `process_create` overwrites the TCB. -/
structure CreateStarts (s : ProcessTables) (args : ProcessArgs) (i : Nat) : Prop where
  partition : args.partitionId < maxPartitions
  budget : args.budgetUs ≤ args.periodUs ∧ args.budgetUs ≠ 0
  thread : (List.range maxTcbs.toNat).find? (fun i => tcbIsFree (s.tcbs.threads i)) = some i
  frame : (allocFrame s.alloc args.partitionId args.stackSize).1 = .ok

/-- The scheduler with context `sc` bound to the new thread. -/
def ProcessTables.boundSched (s : ProcessTables) (args : ProcessArgs) (i sc : Nat) : SchedState :=
  s.sched.setContext sc ((s.sched.contexts sc).bind (UInt32.ofNat i) args.partitionId args.budgetUs
    args.periodUs args.priority)

/-- Context `sc` is the first free one, it can be bound and the partitions stay schedulable. -/
structure CreateSucceeds (s : ProcessTables) (args : ProcessArgs) (i sc : Nat) : Prop
    extends CreateStarts s args i where
  context : (List.range maxSchedContexts.toNat).find? (fun i => !(s.sched.contexts i).bound) = some sc
  allowed : BindAllowed s.sched (UInt32.ofNat sc) args.partitionId args.budgetUs args.periodUs
  schedulable : schedIsSchedulable (s.boundSched args i sc) = true

theorem CreateStarts.lt {s : ProcessTables} {args : ProcessArgs} {i : Nat}
    (h : CreateStarts s args i) : i < maxTcbs.toNat :=
  List.mem_range.mp (List.mem_of_find?_eq_some h.thread)

theorem CreateStarts.free {s : ProcessTables} {args : ProcessArgs} {i : Nat}
    (h : CreateStarts s args i) : tcbIsFree (s.tcbs.threads i) = true := by
  simpa using List.find?_some h.thread

theorem CreateStarts.unique {s : ProcessTables} {args : ProcessArgs} {i j : Nat}
    (hi : CreateStarts s args i) (hj : CreateStarts s args j) : i = j :=
  Option.some.inj (hi.thread.symm.trans hj.thread)

theorem CreateSucceeds.context_lt {s : ProcessTables} {args : ProcessArgs} {i sc : Nat}
    (h : CreateSucceeds s args i sc) : sc < maxSchedContexts.toNat :=
  List.mem_range.mp (List.mem_of_find?_eq_some h.context)

theorem CreateSucceeds.toNat_context {s : ProcessTables} {args : ProcessArgs} {i sc : Nat}
    (h : CreateSucceeds s args i sc) : (UInt32.ofNat sc).toNat = sc :=
  UInt32.toNat_ofNat_of_lt' (Nat.lt_trans h.context_lt (by decide))

theorem CreateSucceeds.context_free {s : ProcessTables} {args : ProcessArgs} {i sc : Nat}
    (h : CreateSucceeds s args i sc) : (s.sched.contexts sc).bound = false := by
  simpa using List.find?_some h.context

/-- The TCB and the tables a successful creation leaves. -/
def ProcessTables.created (s : ProcessTables) (args : ProcessArgs) (i sc : Nat) (stack : Cap)
    (alloc : FrameAlloc) : ProcessTables :=
  { tcbs :=
      { s.tcbs.set i { newTcb (UInt32.ofNat i) args stack with schedContext := UInt32.ofNat sc } with
        count := s.tcbs.count + 1 }
    alloc := alloc
    sched := s.boundSched args i sc
    mdb := (mdbInsert s.mdb Mdb.nil (UInt32.ofNat i) stack).2.2 }

/-- Either nothing changes; or the free TCB is zeroed once more and the bound contexts are as
they were; or the process exists. -/
inductive CreateOutcome (s : ProcessTables) (args : ProcessArgs) :
    KError × Option UInt32 × ProcessTables → Prop
  | refused {e : KError} (hnot : ∀ i, ¬ CreateStarts s args i) : CreateOutcome s args (e, none, s)
  | abandoned {e : KError} {i : Nat} {alloc : FrameAlloc} {sched : SchedState}
      (hstarts : CreateStarts s args i) (hnot : ∀ sc, ¬ CreateSucceeds s args i sc)
      (hsched : s.sched.SameBound sched) :
      CreateOutcome s args
        (e, none, { s with tcbs := s.tcbs.set i Tcb.zero, alloc := alloc, sched := sched })
  | created {i sc : Nat} {stack : Cap} {alloc : FrameAlloc} (h : CreateSucceeds s args i sc) :
      CreateOutcome s args (.ok, some (UInt32.ofNat i), s.created args i sc stack alloc)

theorem bindFreeContext_cases (s : SchedState) (id : UInt32) (args : ProcessArgs) :
    (∃ sc, (List.range maxSchedContexts.toNat).find? (fun i => !(s.contexts i).bound) = some sc ∧
      BindAllowed s (UInt32.ofNat sc) args.partitionId args.budgetUs args.periodUs ∧
      bindFreeContext s id args = (.ok, sc, s.setContext sc ((s.contexts sc).bind id args.partitionId
        args.budgetUs args.periodUs args.priority))) ∨
    ((∀ sc, (List.range maxSchedContexts.toNat).find? (fun i => !(s.contexts i).bound) = some sc →
      ¬ BindAllowed s (UInt32.ofNat sc) args.partitionId args.budgetUs args.periodUs) ∧
      ∃ e sc, e ≠ .ok ∧ bindFreeContext s id args = (e, sc, s)) := by
  unfold bindFreeContext
  cases hfind : (List.range maxSchedContexts.toNat).find? fun i => !(s.contexts i).bound with
  | none => exact Or.inr ⟨fun _ h => (nomatch h), .noMem, 0, by decide, rfl⟩
  | some sc =>
    have hlt : sc < maxSchedContexts.toNat :=
      List.mem_range.mp (List.mem_of_find?_eq_some hfind)
    have hsc : (UInt32.ofNat sc).toNat = sc :=
      UInt32.toNat_ofNat_of_lt' (Nat.lt_trans hlt (by decide))
    obtain ⟨hallowed, heq⟩ | ⟨hnot, heq⟩ := schedContextBind_cases s (UInt32.ofNat sc) id
      args.partitionId args.budgetUs args.periodUs args.priority
    · refine Or.inl ⟨sc, rfl, hallowed, ?_⟩
      simp only [heq, hsc]
    · refine Or.inr ⟨fun sc' h' => ?_, .invalidArg, sc, by decide, by simp only [heq]⟩
      obtain rfl := Option.some.inj h'
      exact hnot

theorem processCreate_outcome (s : ProcessTables) (args : ProcessArgs) :
    CreateOutcome s args (processCreate s args) := by
  unfold processCreate
  by_cases hpart : args.partitionId ≥ maxPartitions
  · rw [if_pos hpart]
    exact .refused fun i h => UInt32.not_lt.mpr hpart h.partition
  rw [if_neg hpart]
  by_cases hbudget : args.budgetUs > args.periodUs ∨ args.budgetUs = 0
  · rw [if_pos hbudget]
    refine .refused fun i h => ?_
    rcases hbudget with hgt | hzero
    · exact UInt64.not_le.mpr hgt h.budget.1
    · exact h.budget.2 hzero
  rw [if_neg hbudget]
  rw [not_or] at hbudget
  cases hthread : (List.range maxTcbs.toNat).find? fun i => tcbIsFree (s.tcbs.threads i) with
  | none => exact .refused fun i h => nomatch hthread.symm.trans h.thread
  | some i =>
    obtain ⟨e, hne, halloc⟩ | ⟨stack, alloc, _, halloc, -⟩ :=
      allocFrame_cases s.alloc args.partitionId args.stackSize
    · have hrefused : ∀ i, ¬ CreateStarts s args i := fun i h => hne (by rw [← h.frame, halloc])
      simp only [halloc]
      exact .refused hrefused
    have hstarts : CreateStarts s args i :=
      ⟨UInt32.not_le.mp hpart, ⟨UInt64.not_lt.mp hbudget.1, hbudget.2⟩, hthread, by rw [halloc]⟩
    simp only [halloc]
    obtain ⟨sc, hcontext, hallowed, hbind⟩ | ⟨hnot, e, sc, hne, hbind⟩ :=
      bindFreeContext_cases s.sched (UInt32.ofNat i) args
    · simp only [hbind]
      split_ifs with hsched
      · exact .created ⟨hstarts, hcontext, hallowed, hsched⟩
      · -- The roll back leaves the context unbound, as it was found.
        refine .abandoned hstarts (fun sc' h => ?_) ?_
        · obtain rfl := Option.some.inj (hcontext.symm.trans h.context)
          exact hsched h.schedulable
        · rw [SchedState.setContext_setContext]
          exact SchedState.sameBound_setContext (by simpa using List.find?_some hcontext) rfl
    · simp only [hbind]
      exact .abandoned hstarts (fun sc' h => hnot sc' h.context h.allowed) (.refl s.sched)

/-- A successful creation inserts one root node under the id it returns; a failed one
leaves the MDB alone. -/
theorem processCreate_cases (s : ProcessTables) (args : ProcessArgs) :
    (∃ id stack, id < maxTcbs ∧ (processCreate s args).1 = .ok ∧
      (processCreate s args).2.1 = some id ∧
      (processCreate s args).2.2.mdb = (mdbInsert s.mdb Mdb.nil id stack).2.2) ∨
    ((processCreate s args).2.1 = none ∧ (processCreate s args).2.2.mdb = s.mdb) := by
  have houtcome := processCreate_outcome s args
  generalize processCreate s args = r at houtcome
  cases houtcome with
  | refused => exact Or.inr ⟨rfl, rfl⟩
  | abandoned => exact Or.inr ⟨rfl, rfl⟩
  | @created i sc stack alloc h =>
    have hid : UInt32.ofNat i < maxTcbs := by
      rw [UInt32.lt_iff_toNat_lt, UInt32.toNat_ofNat_of_lt' (Nat.lt_trans h.lt (by decide))]
      exact h.lt
    exact Or.inl ⟨_, stack, hid, rfl, rfl, rfl⟩

theorem processCreate_mdb (s : ProcessTables) (args : ProcessArgs) :
    (processCreate s args).2.2.mdb = s.mdb ∨
    ∃ id stack, (processCreate s args).2.2.mdb = (mdbInsert s.mdb Mdb.nil id stack).2.2 := by
  obtain ⟨id, stack, -, -, -, hmdb⟩ | ⟨-, hmdb⟩ := processCreate_cases s args
  · exact Or.inr ⟨id, stack, hmdb⟩
  · exact Or.inl hmdb

end Moonlight
