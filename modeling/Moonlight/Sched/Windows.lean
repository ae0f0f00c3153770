/-
Partition windows.

The overlap test of `sched_partition_create` keeps the windows apart over every history
of calls, re-created ids and gaps in the id range included, so the first window the tick
finds is the only one.  In an instant that no window covers the tick keeps the partition
it had, and its threads go on running.
-/
import Mathlib.Order.CompletePartialOrder
import Mathlib.Order.Interval.Set.Disjoint
import Moonlight.Lib.Run
import Moonlight.Sched.Tick

namespace Moonlight

/-- The instants of the major frame that belong to the partition. -/
def TimePartition.window (p : TimePartition) : Set Nat :=
  Set.Ico p.offsetUs.toNat (p.offsetUs.toNat + p.budgetUs.toNat)

/-- The window ends inside the major frame. -/
def TimePartition.InFrame (p : TimePartition) : Prop :=
  p.offsetUs.toNat + p.budgetUs.toNat ≤ majorFrameUs.toNat

instance (p : TimePartition) : Decidable p.InFrame := inferInstanceAs (Decidable (_ ≤ _))

structure PartitionCall where
  id : UInt32
  offset : UInt64
  budget : UInt64
  crit : UInt8

/-- The sum of offset and budget does not wrap. -/
def PartitionCall.NoWrap (c : PartitionCall) : Prop := c.offset.toNat + c.budget.toNat < 2 ^ 64

instance (c : PartitionCall) : Decidable c.NoWrap := inferInstanceAs (Decidable (_ < _))

def partitionStep (s : SchedState) (c : PartitionCall) : SchedState :=
  (schedPartitionCreate s c.id c.offset c.budget c.crit).2

/-! ### What a creation can do -/

/-- The partition an accepted call stores. -/
def PartitionCall.partition (c : PartitionCall) : TimePartition :=
  { id := c.id, offsetUs := c.offset, budgetUs := c.budget, criticality := c.crit,
    colorBase := (c.id * 2).toUInt16, active := true }

structure PartitionCall.Accepted (s : SchedState) (c : PartitionCall) : Prop where
  id : c.id < maxPartitions
  frame : c.offset + c.budget ≤ majorFrameUs
  apart : ∀ i, i < s.numPartitions.toNat → overlaps (s.partitions i) c.offset c.budget = false

theorem partitionStep_cases (s : SchedState) (c : PartitionCall) :
    (c.Accepted s ∧ partitionStep s c =
      { s with
        partitions := Function.update s.partitions c.id.toNat c.partition
        numPartitions := if c.id ≥ s.numPartitions then c.id + 1 else s.numPartitions }) ∨
    partitionStep s c = s := by
  unfold partitionStep schedPartitionCreate
  by_cases hid : c.id ≥ maxPartitions
  · rw [if_pos hid]
    exact Or.inr rfl
  rw [if_neg hid]
  by_cases hframe : c.offset + c.budget > majorFrameUs
  · rw [if_pos hframe]
    exact Or.inr rfl
  rw [if_neg hframe]
  by_cases hany : ((List.range s.numPartitions.toNat).any fun i =>
      overlaps (s.partitions i) c.offset c.budget) = true
  · rw [if_pos hany]
    exact Or.inr rfl
  · rw [if_neg hany]
    refine Or.inl ⟨⟨UInt32.not_le.mp hid, UInt64.not_lt.mp hframe, fun i hi => ?_⟩, rfl⟩
    rw [List.any_eq_true, not_exists] at hany
    have hnot := hany i
    rw [not_and] at hnot
    exact Bool.eq_false_iff.mpr (hnot (List.mem_range.mpr hi))

theorem numPartitions_after {id : UInt32} (hid : id < maxPartitions) (n : UInt32) :
    (if id ≥ n then id + 1 else n).toNat = max (id.toNat + 1) n.toNat := by
  have hlt : id.toNat < 8 := UInt32.lt_iff_toNat_lt.mp hid
  have hsucc : (id + 1).toNat = id.toNat + 1 := by
    rw [UInt32.toNat_add]
    show (id.toNat + 1) % 2 ^ 32 = _
    omega
  split_ifs with hge
  · rw [ge_iff_le, UInt32.le_iff_toNat_le] at hge
    omega
  · rw [UInt32.not_le, UInt32.lt_iff_toNat_lt] at hge
    omega

/-! ### The windows stay apart -/

structure WindowInv (s : SchedState) : Prop where
  count : s.numPartitions.toNat ≤ 8
  unused : ∀ i, s.numPartitions.toNat ≤ i → s.partitions i = TimePartition.zero
  fits : ∀ i, (s.partitions i).offsetUs.toNat + (s.partitions i).budgetUs.toNat ≤ 10000
  apart : ∀ i j, i ≠ j → Disjoint (s.partitions i).window (s.partitions j).window

theorem window_zero : TimePartition.zero.window = ∅ := Set.Ico_self 0

theorem schedInit_windowInv : WindowInv schedInit where
  count := Nat.zero_le 8
  unused := fun _ _ => rfl
  fits := fun _ => Nat.zero_le 10000
  apart := fun _ _ _ => by
    show Disjoint TimePartition.zero.window _
    rw [window_zero]
    exact Set.empty_disjoint _

theorem PartitionCall.NoWrap.toNat {c : PartitionCall} (h : c.NoWrap) :
    (c.offset + c.budget).toNat = c.offset.toNat + c.budget.toNat := by
  rw [UInt64.toNat_add, Nat.mod_eq_of_lt h]

/-- Without a wrap the window ends where the code's sum says. -/
theorem WindowInv.toNat_end {s : SchedState} (h : WindowInv s) (i : Nat) :
    ((s.partitions i).offsetUs + (s.partitions i).budgetUs).toNat =
      (s.partitions i).offsetUs.toNat + (s.partitions i).budgetUs.toNat := by
  have hfits := h.fits i
  rw [UInt64.toNat_add, Nat.mod_eq_of_lt (by omega)]

theorem WindowInv.disjoint_new {s : SchedState} (h : WindowInv s) {c : PartitionCall}
    (hc : c.NoWrap) (hacc : c.Accepted s) (j : Nat) :
    Disjoint c.partition.window (s.partitions j).window := by
  by_cases hj : j < s.numPartitions.toNat
  · have hno := hacc.apart j hj
    rw [overlaps, decide_eq_false_iff_not, not_not, UInt64.le_iff_toNat_le, hc.toNat, ge_iff_le,
      UInt64.le_iff_toNat_le, h.toNat_end j] at hno
    rw [TimePartition.window, TimePartition.window, Set.Ico_disjoint_Ico]
    show min (c.offset.toNat + c.budget.toNat) _ ≤ max c.offset.toNat _
    omega
  · rw [h.unused j (Nat.not_lt.mp hj), window_zero]
    exact Set.disjoint_empty _

theorem WindowInv.step {s : SchedState} (h : WindowInv s) {c : PartitionCall} (hc : c.NoWrap) :
    WindowInv (partitionStep s c) := by
  obtain ⟨hacc, heq⟩ | heq := partitionStep_cases s c
  · have hid : c.id.toNat < 8 := UInt32.lt_iff_toNat_lt.mp hacc.id
    have hnum := numPartitions_after hacc.id s.numPartitions
    have hcount := h.count
    rw [heq]
    refine ⟨?_, fun i hi => ?_, fun i => ?_, fun i j hij => ?_⟩
    · show (if c.id ≥ s.numPartitions then c.id + 1 else s.numPartitions).toNat ≤ 8
      omega
    · have hi' : max (c.id.toNat + 1) s.numPartitions.toNat ≤ i := hnum.symm.le.trans hi
      show Function.update s.partitions c.id.toNat c.partition i = _
      rw [Function.update_of_ne (by omega)]
      exact h.unused i (by omega)
    · show (Function.update s.partitions c.id.toNat c.partition i).offsetUs.toNat +
        (Function.update s.partitions c.id.toNat c.partition i).budgetUs.toNat ≤ 10000
      by_cases hi : i = c.id.toNat
      · rw [hi, Function.update_self]
        show c.offset.toNat + c.budget.toNat ≤ 10000
        rw [← hc.toNat]
        exact UInt64.le_iff_toNat_le.mp hacc.frame
      · rw [Function.update_of_ne hi]
        exact h.fits i
    · show Disjoint (Function.update s.partitions c.id.toNat c.partition i).window
        (Function.update s.partitions c.id.toNat c.partition j).window
      by_cases hi : i = c.id.toNat
      · rw [hi, Function.update_self, Function.update_of_ne (hi ▸ hij.symm)]
        exact h.disjoint_new hc hacc j
      · by_cases hj : j = c.id.toNat
        · rw [hj, Function.update_self, Function.update_of_ne hi]
          exact (h.disjoint_new hc hacc i).symm
        · rw [Function.update_of_ne hi, Function.update_of_ne hj]
          exact h.apart i j hij
  · rw [heq]
    exact h

theorem partitions_windowInv {calls : List PartitionCall} (h : ∀ c ∈ calls, c.NoWrap) :
    WindowInv (Run.exec partitionStep schedInit calls) := by
  have hstep : ∀ s c, PartitionCall.NoWrap c → WindowInv s → WindowInv (partitionStep s c) :=
    fun s c hc hs => hs.step hc
  exact Run.exec_invariant hstep (Run.guarded_of_forall h schedInit) schedInit_windowInv

/-! ### Windows and the major frame

The limit is compared with the sum of offset and budget modulo `2 ^ 64`, so a call whose sum
wraps far enough passes whatever its offset. -/

theorem partitionStep_of_accepted {s : SchedState} {c : PartitionCall} (h : c.Accepted s) :
    (partitionStep s c).partitions = Function.update s.partitions c.id.toNat c.partition := by
  have hany : ((List.range s.numPartitions.toNat).any fun i =>
      overlaps (s.partitions i) c.offset c.budget) = false := by
    rw [List.any_eq_false]
    intro i hi
    rw [h.apart i (List.mem_range.mp hi)]
    exact Bool.false_ne_true
  unfold partitionStep schedPartitionCreate
  rw [if_neg (UInt32.not_le.mpr h.id), if_neg (UInt64.not_lt.mpr h.frame),
    if_neg (Bool.eq_false_iff.mp hany)]
  rfl

theorem PartitionCall.Accepted.inFrame_iff {s : SchedState} {c : PartitionCall} (h : c.Accepted s) :
    c.partition.InFrame ↔ c.NoWrap := by
  have hsum := UInt64.le_iff_toNat_le.mp h.frame
  rw [UInt64.toNat_add] at hsum
  show c.offset.toNat + c.budget.toNat ≤ majorFrameUs.toNat ↔
    c.offset.toNat + c.budget.toNat < 2 ^ 64
  have hframe : majorFrameUs.toNat = 10000 := rfl
  have hoffset := c.offset.toNat_lt
  have hbudget := c.budget.toNat_lt
  omega

/-- Every active partition ends inside the major frame. -/
def ActiveInFrame (s : SchedState) : Prop :=
  ∀ i, (s.partitions i).active = true → (s.partitions i).InFrame

theorem ActiveInFrame.step_iff {s : SchedState} (h : ActiveInFrame s) (c : PartitionCall) :
    ActiveInFrame (partitionStep s c) ↔ (c.Accepted s → c.NoWrap) := by
  by_cases hacc : c.Accepted s
  · rw [forall_prop_of_true hacc, ← hacc.inFrame_iff, ActiveInFrame, partitionStep_of_accepted hacc]
    constructor
    · intro hall
      have hnew := hall c.id.toNat
      rw [Function.update_self] at hnew
      exact hnew rfl
    · intro hnew i
      by_cases hi : i = c.id.toNat
      · rw [hi, Function.update_self]
        exact fun _ => hnew
      · rw [Function.update_of_ne hi]
        exact h i
  · have hsame : partitionStep s c = s := by
      obtain ⟨hacc', -⟩ | heq := partitionStep_cases s c
      · exact absurd hacc' hacc
      · exact heq
    rw [hsame]
    exact iff_of_true h fun hacc' => absurd hacc' hacc

/-- Along a run of creations every active partition ends inside the major frame exactly when
no accepted call has a sum that wraps. -/
theorem partitions_inFrame_iff (calls : List PartitionCall) :
    (∀ done, done <+: calls → ActiveInFrame (Run.exec partitionStep schedInit done)) ↔
      Run.Guarded partitionStep (fun s c => c.Accepted s → c.NoWrap) schedInit calls := by
  refine Run.exec_forall_prefix_iff (fun s c h => h.step_iff c) ?_ calls
  intro i hactive
  cases hactive

/-- A window of 20 microseconds whose end wraps to 10. -/
theorem partition_wraps_frame :
    ((Run.exec partitionStep schedInit [⟨0, 0xFFFFFFFFFFFFFFF6, 20, 1⟩]).partitions 0).active = true ∧
      ¬ ActiveInFrame (Run.exec partitionStep schedInit [⟨0, 0xFFFFFFFFFFFFFFF6, 20, 1⟩]) := by
  refine ⟨by decide, fun h => ?_⟩
  exact absurd (h 0 (by decide)) (by decide)

/-! ### The tick finds the owner of the instant -/

theorem WindowInv.covers_iff {s : SchedState} (h : WindowInv s) (i : Nat) (offset : UInt64) :
    (s.partitions i).covers offset = true ↔ offset.toNat ∈ (s.partitions i).window := by
  rw [TimePartition.covers, Bool.and_eq_true, decide_eq_true_iff, decide_eq_true_iff, ge_iff_le,
    UInt64.le_iff_toNat_le, UInt64.lt_iff_toNat_lt, h.toNat_end]
  exact Iff.rfl

theorem WindowInv.lt_of_mem {s : SchedState} (h : WindowInv s) {p x : Nat}
    (hx : x ∈ (s.partitions p).window) : p < s.numPartitions.toNat := by
  by_contra hp
  rw [h.unused p (Nat.not_lt.mp hp), window_zero] at hx
  exact hx

theorem WindowInv.partitionAt_of_mem {s : SchedState} (h : WindowInv s) {now : UInt64} {p : Nat}
    (hp : (frameOffset s now).toNat ∈ (s.partitions p).window) : partitionAt s now = some p := by
  rw [partitionAt, List.find?_range_eq_some]
  refine ⟨(h.covers_iff p _).mpr hp, List.mem_range.mpr (h.lt_of_mem hp), fun j hj => ?_⟩
  rw [Bool.not_eq_true', Bool.eq_false_iff]
  intro hcovers
  have hjmem := (h.covers_iff j _).mp hcovers
  exact Set.disjoint_left.mp (h.apart j p (Nat.ne_of_lt hj)) hjmem hp

theorem WindowInv.partitionAt_of_gap {s : SchedState} (h : WindowInv s) {now : UInt64}
    (hgap : ∀ p, (frameOffset s now).toNat ∉ (s.partitions p).window) : partitionAt s now = none := by
  rw [partitionAt, List.find?_range_eq_none]
  intro i _
  rw [Bool.not_eq_true', Bool.eq_false_iff]
  exact fun hcovers => hgap i ((h.covers_iff i _).mp hcovers)

theorem WindowInv.tick_owner {s : SchedState} (h : WindowInv s) {now : UInt64} {p : Nat}
    (hp : (frameOffset s now).toNat ∈ (s.partitions p).window) :
    (schedTick s now).currentPartition.toNat = p := by
  have hlt := h.lt_of_mem hp
  have hcount := h.count
  have hcur : (schedTick s now).currentPartition = UInt32.ofNat p := by
    simp only [schedTick, h.partitionAt_of_mem hp]
  rw [hcur, UInt32.toNat_ofNat', Nat.mod_eq_of_lt (by omega)]

theorem WindowInv.congr {s s' : SchedState} (h : WindowInv s) (hp : s'.partitions = s.partitions)
    (hn : s'.numPartitions = s.numPartitions) : WindowInv s' := by
  refine ⟨?_, ?_, ?_, ?_⟩
  · rw [hn]
    exact h.count
  · rw [hp, hn]
    exact h.unused
  · rw [hp]
    exact h.fits
  · rw [hp]
    exact h.apart

/-- Over every history of calls the windows stay apart, and whatever partition is current
the tick moves to the one that owns the instant. -/
theorem tick_selects_owner {calls : List PartitionCall} (h : ∀ c ∈ calls, c.NoWrap) :
    (∀ i j, ((Run.exec partitionStep schedInit calls).partitions i).active = true →
      ((Run.exec partitionStep schedInit calls).partitions j).active = true → i ≠ j →
      Disjoint ((Run.exec partitionStep schedInit calls).partitions i).window
        ((Run.exec partitionStep schedInit calls).partitions j).window) ∧
    ∀ (s : SchedState), s.partitions = (Run.exec partitionStep schedInit calls).partitions →
      s.numPartitions = (Run.exec partitionStep schedInit calls).numPartitions →
      ∀ (now : UInt64) (p : Nat), (frameOffset s now).toNat ∈ (s.partitions p).window →
        (schedTick s now).currentPartition.toNat = p := by
  have hinv := partitions_windowInv h
  refine ⟨fun i j _ _ hij => hinv.apart i j hij, fun s hp hn now p hmem => ?_⟩
  exact (hinv.congr hp hn).tick_owner hmem

/-- Partitions 0 and 2 with a gap at id 1, and a call refused for overlapping partition 0. -/
def gapCalls : List PartitionCall :=
  [⟨0, 0, 6000, 1⟩, ⟨1, 5000, 2000, 2⟩, ⟨2, 6000, 2000, 3⟩]

theorem tick_selects_owner_third :
    (schedTick (Run.exec partitionStep schedInit gapCalls) 16500).currentPartition.toNat = 2 := by
  have hcalls : ∀ c ∈ gapCalls, c.NoWrap := by decide
  exact (tick_selects_owner hcalls).2 _ rfl rfl 16500 2 ⟨by decide, by decide⟩

/-! ### Threads in their windows -/

/-- A thread that `sched_pick_next` returns belongs to a partition whose window holds the
instant. -/
def RunsInWindow (tcbs : TcbTable) (s : SchedState) (now : UInt64) : Prop :=
  ∀ i id, pickContext tcbs s = some i → schedPickNext tcbs s = some id → id ≠ idleThread →
    (frameOffset s now).toNat ∈ (s.partitions (s.contexts i).partitionId.toNat).window

/-- The contexts the tick leaves. -/
def SchedState.replenished (s : SchedState) (now : UInt64) : SchedState :=
  { s with
    contexts := fun i =>
      if i < maxSchedContexts.toNat then (s.contexts i).replenish now else s.contexts i }

/-- With its contexts replenished, the current partition has a thread to run. -/
def OffersThread (tcbs : TcbTable) (s : SchedState) (now : UInt64) : Prop :=
  ∃ i, FirstStop tcbs (s.replenished now) i ∧ (s.contexts i).tcbId < maxTcbs

theorem replenish_tcbId (c : SchedContext) (now : UInt64) : (c.replenish now).tcbId = c.tcbId := by
  unfold SchedContext.replenish
  split_ifs <;> rfl

theorem replenished_tcbId (s : SchedState) (now : UInt64) (i : Nat) :
    ((s.replenished now).contexts i).tcbId = (s.contexts i).tcbId := by
  simp only [SchedState.replenished]
  split_ifs
  · exact replenish_tcbId ..
  · rfl

theorem FirstStop.partition {tcbs : TcbTable} {s : SchedState} {i : Nat} (h : FirstStop tcbs s i) :
    (s.contexts i).partitionId = s.currentPartition := by
  have hstops := h.stops
  simp only [SchedContext.stops, SchedContext.isCandidate, Bool.and_eq_true, beq_iff_eq] at hstops
  exact hstops.1.1.2

/-- While a window is open its partition is the current one after the tick. -/
theorem WindowInv.runsInWindow_of_mem {s : SchedState} (h : WindowInv s) (tcbs : TcbTable)
    {now : UInt64} {p : Nat} (hp : (frameOffset s now).toNat ∈ (s.partitions p).window) :
    RunsInWindow tcbs (schedTick s now) now := by
  intro i id hpick _ _
  rw [(pickContext_some hpick).partition, h.tick_owner hp]
  exact hp

theorem WindowInv.runsInWindow_iff {s : SchedState} (h : WindowInv s) (tcbs : TcbTable)
    (now : UInt64) :
    RunsInWindow tcbs (schedTick s now) now ↔
      (∃ p, (frameOffset s now).toNat ∈ (s.partitions p).window) ∨ ¬ OffersThread tcbs s now := by
  by_cases hcovered : ∃ p, (frameOffset s now).toNat ∈ (s.partitions p).window
  · refine ⟨fun _ => Or.inl hcovered, fun _ => ?_⟩
    obtain ⟨p, hp⟩ := hcovered
    exact h.runsInWindow_of_mem tcbs hp
  · rw [not_exists] at hcovered
    have htick : schedTick s now = s.replenished now := by
      simp only [schedTick, h.partitionAt_of_gap hcovered, SchedState.replenished]
    rw [htick]
    constructor
    · intro hruns
      refine Or.inr ?_
      intro hpicked
      obtain ⟨i, hfirst, hid⟩ := hpicked
      rw [← replenished_tcbId s now] at hid
      exact hcovered _ (hruns i _ (pickContext_eq_some_iff.mpr hfirst)
        (schedPickNext_of_firstStop hfirst hid) (ne_idleThread hid))
    · intro hcovered i id hpick hnext _
      rcases hcovered with ⟨p, hp⟩ | hnone
      · exact absurd hp (hcovered p)
      · -- What is returned through a context is a thread of the table.
        have hfirst := pickContext_some hpick
        simp only [schedPickNext, hpick] at hnext
        split_ifs at hnext with hid
        rw [replenished_tcbId] at hid
        exact absurd ⟨i, hfirst, hid⟩ hnone

theorem ticks_partitions (ticks : List UInt64) (s : SchedState) :
    (ticks.foldl schedTick s).partitions = s.partitions ∧
      (ticks.foldl schedTick s).numPartitions = s.numPartitions := by
  induction ticks generalizing s with
  | nil => exact ⟨rfl, rfl⟩
  | cons now ticks ih => exact ih (schedTick s now)

/-- The state of a run of creations and ticks, for any contexts. -/
theorem ticked_windowInv {calls : List PartitionCall} (h : ∀ c ∈ calls, c.NoWrap)
    (contexts : Nat → SchedContext) (ticks : List UInt64) :
    WindowInv (ticks.foldl schedTick
      { Run.exec partitionStep schedInit calls with contexts := contexts }) := by
  have hparts := ticks_partitions ticks
    { Run.exec partitionStep schedInit calls with contexts := contexts }
  exact (partitions_windowInv h).congr hparts.1 hparts.2

/-- At an instant inside some window only threads of that window's partition run. -/
theorem threads_run_in_window_of_mem {calls : List PartitionCall} (h : ∀ c ∈ calls, c.NoWrap)
    (contexts : Nat → SchedContext) (ticks : List UInt64) {s : SchedState}
    (hs : s = ticks.foldl schedTick
      { Run.exec partitionStep schedInit calls with contexts := contexts })
    (tcbs : TcbTable) {now : UInt64} {p : Nat}
    (hp : (frameOffset s now).toNat ∈ (s.partitions p).window) :
    RunsInWindow tcbs (schedTick s now) now := by
  subst hs
  exact (ticked_windowInv h contexts ticks).runsInWindow_of_mem tcbs hp

/-- A tick leaves only threads inside their windows to run exactly when some window holds
the instant or the partition that stays current has no thread to run. -/
theorem threads_run_in_window_iff {calls : List PartitionCall} (h : ∀ c ∈ calls, c.NoWrap)
    (contexts : Nat → SchedContext) (ticks : List UInt64) {s : SchedState}
    (hs : s = ticks.foldl schedTick
      { Run.exec partitionStep schedInit calls with contexts := contexts })
    (tcbs : TcbTable) (now : UInt64) :
    RunsInWindow tcbs (schedTick s now) now ↔
      (∃ p, (frameOffset s now).toNat ∈ (s.partitions p).window) ∨ ¬ OffersThread tcbs s now := by
  subst hs
  exact (ticked_windowInv h contexts ticks).runsInWindow_iff tcbs now

/-- Thread 1 in partition 2, as `sched_context_bind` binds it. -/
def gapContexts : Nat → SchedContext :=
  (schedContextBind (Run.exec partitionStep schedInit gapCalls) 0 1 2 500 2000 5).2.contexts

/-- Thread 1 is the runnable one. -/
def oneRunnable : TcbTable :=
  { threads := fun i => { Tcb.zero with state := if i = 1 then .runnable else .inactive }, count := 2 }

/-- The scheduler after a tick inside the window of partition 2. -/
def gapState : SchedState :=
  [6500].foldl schedTick
    { Run.exec partitionStep schedInit gapCalls with contexts := gapContexts }

theorem threads_run_in_window_covered :
    schedPickNext oneRunnable (schedTick gapState 7000) = some 1 ∧
      RunsInWindow oneRunnable (schedTick gapState 7000) 7000 := by
  have hcalls : ∀ c ∈ gapCalls, c.NoWrap := by decide
  refine ⟨by decide +kernel, ?_⟩
  refine (threads_run_in_window_iff hcalls gapContexts [6500] rfl oneRunnable 7000).mpr ?_
  exact Or.inl ⟨2, by decide, by decide⟩

/-- At 9000 no window is open, and the thread of partition 2 still runs. -/
theorem thread_runs_in_gap :
    [6500, 9000].Pairwise (· ≤ ·) ∧ (∀ c ∈ gapCalls, c.NoWrap) ∧
      ¬ RunsInWindow oneRunnable (schedTick gapState 9000) 9000 := by
  refine ⟨by decide, by decide, fun hruns => ?_⟩
  have hmem := hruns 0 1 (by decide +kernel) (by decide +kernel) (by decide)
  exact absurd hmem.2 (by decide)

end Moonlight
