/-
Time partitions and scheduling contexts: the scheduler's data and the operations
that set it up.

Of the records in `sched.h` the fields that no code reads or writes are left
out: the partition's name and `used_us`, the context's `is_realtime`, and the
ready bitmaps and queues.
-/
import Moonlight.Kernel.Types

namespace Moonlight

def majorFrameUs : UInt64 := 10000

def maxSchedContexts : UInt32 := 64

/-- `time_partition_t`. -/
structure TimePartition where
  id : UInt32
  offsetUs : UInt64
  budgetUs : UInt64
  criticality : UInt8
  colorBase : UInt16
  active : Bool
  deriving DecidableEq, Repr

def TimePartition.zero : TimePartition :=
  { id := 0, offsetUs := 0, budgetUs := 0, criticality := 0, colorBase := 0, active := false }

/-- `sched_context_t`. -/
structure SchedContext where
  bound : Bool
  tcbId : UInt32
  partitionId : UInt32
  budgetUs : UInt64
  periodUs : UInt64
  remainingUs : UInt64
  deadline : UInt64
  priority : UInt8
  consumedThisPeriod : UInt64
  deriving DecidableEq, Repr

def SchedContext.zero : SchedContext :=
  { bound := false, tcbId := 0, partitionId := 0, budgetUs := 0, periodUs := 0, remainingUs := 0,
    deadline := 0, priority := 0, consumedThisPeriod := 0 }

/-- `sched_state_t`. -/
structure SchedState where
  partitions : Nat → TimePartition
  numPartitions : UInt32
  majorFrameStart : UInt64
  currentPartition : UInt32
  contexts : Nat → SchedContext

def schedInit : SchedState :=
  { partitions := fun _ => TimePartition.zero, numPartitions := 0, majorFrameStart := 0,
    currentPartition := 0, contexts := fun _ => SchedContext.zero }

def SchedState.setContext (s : SchedState) (i : Nat) (c : SchedContext) : SchedState :=
  { s with contexts := Function.update s.contexts i c }

/-- The overlap test of `sched_partition_create`, with its wrapping sums. -/
def overlaps (p : TimePartition) (offset budget : UInt64) : Bool :=
  ¬ (offset + budget ≤ p.offsetUs ∨ offset ≥ p.offsetUs + p.budgetUs)

def schedPartitionCreate (s : SchedState) (id : UInt32) (offset budget : UInt64) (crit : UInt8) :
    KError × SchedState :=
  if id ≥ maxPartitions then (.invalidArg, s)
  else if offset + budget > majorFrameUs then (.invalidArg, s)
  else if (List.range s.numPartitions.toNat).any fun i => overlaps (s.partitions i) offset budget then
    (.invalidArg, s)
  else
    (.ok,
      { s with
        partitions := Function.update s.partitions id.toNat
          { id := id, offsetUs := offset, budgetUs := budget, criticality := crit,
            colorBase := (id * 2).toUInt16, active := true }
        numPartitions := if id ≥ s.numPartitions then id + 1 else s.numPartitions })

/-- The context as `sched_context_bind` leaves it. -/
def SchedContext.bind (c : SchedContext) (tcbId partId : UInt32) (budget period : UInt64)
    (prio : UInt8) : SchedContext :=
  { c with
    bound := true, tcbId := tcbId, partitionId := partId, budgetUs := budget, periodUs := period,
    priority := prio, remainingUs := budget, deadline := period }

def schedContextBind (s : SchedState) (scId tcbId partId : UInt32) (budget period : UInt64)
    (prio : UInt8) : KError × SchedState :=
  if scId ≥ maxSchedContexts then (.invalidArg, s)
  else if partId ≥ maxPartitions ∨ (s.partitions partId.toNat).active = false then (.invalidArg, s)
  else if budget = 0 ∨ period = 0 ∨ budget > period then (.invalidArg, s)
  else if budget > (s.partitions partId.toNat).budgetUs then (.invalidArg, s)
  else
    (.ok, s.setContext scId.toNat
      ((s.contexts scId.toNat).bind tcbId partId budget period prio))

/-- The sum the inner loop of `sched_is_schedulable` computes for partition `p`.
A bound context has a nonzero period, so the division is never by zero. -/
def utilisation (s : SchedState) (p : UInt32) : UInt64 :=
  (List.range maxSchedContexts.toNat).foldl (fun sum i =>
    if (s.contexts i).bound = true ∧ (s.contexts i).partitionId = p then
      sum + (s.contexts i).budgetUs * 100 / (s.contexts i).periodUs
    else sum) 0

def schedIsSchedulable (s : SchedState) : Bool :=
  (List.range s.numPartitions.toNat).all fun p => utilisation s (UInt32.ofNat p) ≤ 99

/-- `wcet_check`, with the time it reads as an argument. -/
def wcetCheck (entry now : UInt64) : Bool := now - entry ≤ 5000

/-! ### Contexts that are taken back -/

/-- Nothing has happened to the contexts but that some are no longer bound. -/
structure SchedState.Releases (s s' : SchedState) : Prop where
  numPartitions : s'.numPartitions = s.numPartitions
  contexts : ∀ i, s'.contexts i = s.contexts i ∨ (s'.contexts i).bound = false

theorem SchedState.Releases.refl (s : SchedState) : s.Releases s := ⟨rfl, fun _ => Or.inl rfl⟩

theorem SchedState.Releases.bound {s s' : SchedState} (h : s.Releases s') {i : Nat}
    (hi : (s'.contexts i).bound = true) : s'.contexts i = s.contexts i := by
  refine (h.contexts i).resolve_right fun hfree => ?_
  rw [hi] at hfree
  cases hfree

@[simp] theorem SchedState.setContext_self (s : SchedState) (i : Nat) (c : SchedContext) :
    (s.setContext i c).contexts i = c := Function.update_self ..

theorem SchedState.setContext_ne {i j : Nat} (h : j ≠ i) (s : SchedState) (c : SchedContext) :
    (s.setContext i c).contexts j = s.contexts j := Function.update_of_ne h ..

theorem SchedState.setContext_setContext (s : SchedState) (i : Nat) (c c' : SchedContext) :
    (s.setContext i c).setContext i c' = s.setContext i c' := by
  simp only [setContext, Function.update_idem]

theorem SchedState.releases_setContext (s : SchedState) (i : Nat) {c : SchedContext}
    (hc : c.bound = false) : s.Releases (s.setContext i c) := by
  refine ⟨rfl, fun j => ?_⟩
  by_cases hj : j = i
  · subst hj
    rw [setContext_self]
    exact Or.inr hc
  · exact Or.inl (setContext_ne hj s c)

/-- Nothing has happened to the contexts that are bound, and no other one is bound. -/
structure SchedState.SameBound (s s' : SchedState) : Prop where
  numPartitions : s'.numPartitions = s.numPartitions
  contexts : ∀ i, s'.contexts i = s.contexts i ∨
    (s.contexts i).bound = false ∧ (s'.contexts i).bound = false

theorem SchedState.SameBound.refl (s : SchedState) : s.SameBound s := ⟨rfl, fun _ => Or.inl rfl⟩

theorem SchedState.SameBound.releases {s s' : SchedState} (h : s.SameBound s') : s.Releases s' :=
  ⟨h.numPartitions, fun i => (h.contexts i).imp_right And.right⟩

theorem SchedState.SameBound.kept {s s' : SchedState} (h : s.SameBound s') {i : Nat}
    (hi : (s.contexts i).bound = true) : s'.contexts i = s.contexts i := by
  refine (h.contexts i).resolve_right fun hfree => ?_
  rw [hi] at hfree
  cases hfree.1

theorem SchedState.sameBound_setContext {s : SchedState} {i : Nat} {c : SchedContext}
    (hi : (s.contexts i).bound = false) (hc : c.bound = false) : s.SameBound (s.setContext i c) := by
  refine ⟨rfl, fun j => ?_⟩
  by_cases hj : j = i
  · subst hj
    rw [setContext_self]
    exact Or.inr ⟨hi, hc⟩
  · exact Or.inl (setContext_ne hj s c)

/-- No context is bound. -/
def NoBoundContext (s : SchedState) : Prop :=
  ∀ i, i < maxSchedContexts.toNat → (s.contexts i).bound = false

/-! ### What binding can do -/

/-- The guard of `sched_context_bind`. -/
def BindAllowed (s : SchedState) (scId partId : UInt32) (budget period : UInt64) : Prop :=
  scId < maxSchedContexts ∧ partId < maxPartitions ∧ (s.partitions partId.toNat).active = true ∧
    budget ≠ 0 ∧ period ≠ 0 ∧ budget ≤ period ∧ budget ≤ (s.partitions partId.toNat).budgetUs

instance (s : SchedState) (scId partId : UInt32) (budget period : UInt64) :
    Decidable (BindAllowed s scId partId budget period) :=
  inferInstanceAs (Decidable (_ ∧ _ ∧ _ ∧ _ ∧ _ ∧ _ ∧ _))

theorem schedContextBind_cases (s : SchedState) (scId tcbId partId : UInt32)
    (budget period : UInt64) (prio : UInt8) :
    (BindAllowed s scId partId budget period ∧
      schedContextBind s scId tcbId partId budget period prio =
        (.ok, s.setContext scId.toNat
          ((s.contexts scId.toNat).bind tcbId partId budget period prio))) ∨
    (¬ BindAllowed s scId partId budget period ∧
      schedContextBind s scId tcbId partId budget period prio = (.invalidArg, s)) := by
  unfold schedContextBind
  by_cases hsc : scId ≥ maxSchedContexts
  · exact Or.inr ⟨fun h => UInt32.not_lt.mpr hsc h.1, by simp [hsc]⟩
  by_cases hp : partId ≥ maxPartitions ∨ (s.partitions partId.toNat).active = false
  · refine Or.inr ⟨fun h => ?_, by simp [hsc, hp]⟩
    rcases hp with hp | hp
    · exact UInt32.not_lt.mpr hp h.2.1
    · rw [h.2.2.1] at hp
      cases hp
  by_cases hb : budget = 0 ∨ period = 0 ∨ budget > period
  · refine Or.inr ⟨fun h => ?_, by simp [hsc, hp, hb]⟩
    rcases hb with hb | hb | hb
    · exact h.2.2.2.1 hb
    · exact h.2.2.2.2.1 hb
    · exact UInt64.not_le.mpr hb h.2.2.2.2.2.1
  by_cases hw : budget > (s.partitions partId.toNat).budgetUs
  · exact Or.inr ⟨fun h => UInt64.not_le.mpr hw h.2.2.2.2.2.2, by simp [hsc, hp, hb, hw]⟩
  · simp only [not_or] at hp hb
    refine Or.inl ⟨⟨UInt32.not_le.mp hsc, UInt32.not_le.mp hp.1, by simpa using hp.2, hb.1, hb.2.1,
      UInt64.not_lt.mp hb.2.2, UInt64.not_lt.mp hw⟩, ?_⟩
    simp [hsc, hp, hb, hw]

end Moonlight
