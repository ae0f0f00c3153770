/-
The tick and the choice of the next thread.

`sched_tick` looks for the partition whose window holds the instant and keeps the
current one when there is none; then it replenishes the contexts whose deadline has
passed.  `sched_pick_next` goes through the contexts of the current partition in the
order of their priorities.  The microarchitectural flush has no state here.
-/
import Mathlib.Data.Prod.Lex
import Moonlight.Ipc.Tcb
import Moonlight.Sched.State

namespace Moonlight

/-- `(now_us - major_frame_start) % MAJOR_FRAME_US`. -/
def frameOffset (s : SchedState) (now : UInt64) : UInt64 :=
  (now - s.majorFrameStart) % majorFrameUs

/-- The window test of `sched_tick`, with its wrapping sum. -/
def TimePartition.covers (p : TimePartition) (offset : UInt64) : Bool :=
  offset ≥ p.offsetUs && offset < p.offsetUs + p.budgetUs

/-- The loop over the partitions: the first window that holds the instant. -/
def partitionAt (s : SchedState) (now : UInt64) : Option Nat :=
  (List.range s.numPartitions.toNat).find? fun i => (s.partitions i).covers (frameOffset s now)

def SchedContext.replenish (c : SchedContext) (now : UInt64) : SchedContext :=
  if c.bound = true ∧ now ≥ c.deadline then
    { c with remainingUs := c.budgetUs, deadline := c.deadline + c.periodUs, consumedThisPeriod := 0 }
  else c

def schedTick (s : SchedState) (now : UInt64) : SchedState :=
  { s with
    currentPartition :=
      match partitionAt s now with
      | some i => UInt32.ofNat i
      | none => s.currentPartition
    contexts := fun i =>
      if i < maxSchedContexts.toNat then (s.contexts i).replenish now else s.contexts i }

/-- A context the scan of `sched_pick_next` looks up the thread of. -/
def SchedContext.isCandidate (c : SchedContext) (part : UInt32) : Bool :=
  c.bound && c.partitionId == part && c.remainingUs != 0

/-- Where the scan ends: at a runnable thread, or at a thread id outside the table. -/
def SchedContext.stops (c : SchedContext) (tcbs : TcbTable) (part : UInt32) : Bool :=
  c.isCandidate part && (c.tcbId ≥ maxTcbs || tcbIsRunnable (tcbs.threads c.tcbId.toNat))

/-- The two nested loops, over the priorities and over the contexts. -/
def pickContext (tcbs : TcbTable) (s : SchedState) : Option Nat :=
  (List.range 256).findSome? fun prio =>
    (List.range maxSchedContexts.toNat).find? fun i =>
      (s.contexts i).priority.toNat == prio && (s.contexts i).stops tcbs s.currentPartition

def idleThread : UInt32 := 0xFFFFFFFF

/-- `sched_pick_next`; `none` is a read outside `g_tcbs.threads`. -/
def schedPickNext (tcbs : TcbTable) (s : SchedState) : Option UInt32 :=
  match pickContext tcbs s with
  | none => some idleThread
  | some i =>
    if (s.contexts i).tcbId < maxTcbs then some (s.contexts i).tcbId else none

/-! ### Which context is picked -/

/-- Context `j` comes before context `i` in the scan. -/
def SchedState.Ahead (s : SchedState) (j i : Nat) : Prop :=
  (s.contexts j).priority < (s.contexts i).priority ∨
    (s.contexts j).priority = (s.contexts i).priority ∧ j < i

/-- The scan ends at the first context that stops it. -/
structure FirstStop (tcbs : TcbTable) (s : SchedState) (i : Nat) : Prop where
  lt : i < maxSchedContexts.toNat
  stops : (s.contexts i).stops tcbs s.currentPartition = true
  first : ∀ j, j < maxSchedContexts.toNat →
    (s.contexts j).stops tcbs s.currentPartition = true → ¬ s.Ahead j i

/-- What is smaller than an element of the range stands before it. -/
theorem mem_before_of_lt {n x y : Nat} {before after : List Nat}
    (hsplit : List.range n = before ++ y :: after) (hx : x < n) (hlt : x < y) : x ∈ before := by
  have hsorted := List.pairwise_lt_range (n := n)
  rw [hsplit, List.pairwise_append, List.pairwise_cons] at hsorted
  have hmem := List.mem_range.mpr hx
  rw [hsplit, List.mem_append, List.mem_cons] at hmem
  rcases hmem with hbefore | heq | hafter
  · exact hbefore
  · omega
  · have hgt := hsorted.2.1.1 x hafter
    omega

theorem pickContext_some {tcbs : TcbTable} {s : SchedState} {i : Nat}
    (h : pickContext tcbs s = some i) : FirstStop tcbs s i := by
  obtain ⟨before, prio, after, hsplit, hfind, hnone⟩ := List.findSome?_eq_some_iff.mp h
  obtain ⟨htest, hmem, hfirst⟩ := List.find?_range_eq_some.mp hfind
  rw [Bool.and_eq_true, beq_iff_eq] at htest
  refine ⟨List.mem_range.mp hmem, htest.2, fun j hj hstops hahead => ?_⟩
  rcases hahead with hlt | ⟨heq, hlt⟩
  · -- An earlier priority has been tried before and found nothing.
    have hlt' := UInt8.lt_iff_toNat_lt.mp hlt
    rw [htest.1] at hlt'
    have hbefore := mem_before_of_lt hsplit (UInt8.toNat_lt _) hlt'
    have hnot := List.find?_range_eq_none.mp (hnone _ hbefore) j hj
    simp [hstops] at hnot
  · have hnot := hfirst j hlt
    rw [heq] at hnot
    simp [htest.1, hstops] at hnot

theorem FirstStop.unique {tcbs : TcbTable} {s : SchedState} {i j : Nat} (hi : FirstStop tcbs s i)
    (hj : FirstStop tcbs s j) : i = j := by
  have hij := hi.first j hj.lt hj.stops
  have hji := hj.first i hi.lt hi.stops
  rw [SchedState.Ahead, not_or, not_and, UInt8.not_lt] at hij hji
  have hprio := UInt8.le_antisymm hji.1 hij.1
  have hle := hij.2 hprio
  have hge := hji.2 hprio.symm
  omega

theorem pickContext_none {tcbs : TcbTable} {s : SchedState} (h : pickContext tcbs s = none) {i : Nat}
    (hi : i < maxSchedContexts.toNat) : (s.contexts i).stops tcbs s.currentPartition = false := by
  have hnone := List.findSome?_eq_none_iff.mp h (s.contexts i).priority.toNat
    (List.mem_range.mpr (UInt8.toNat_lt _))
  have hnot := List.find?_range_eq_none.mp hnone i hi
  simpa using hnot

theorem pickContext_eq_some_iff {tcbs : TcbTable} {s : SchedState} {i : Nat} :
    pickContext tcbs s = some i ↔ FirstStop tcbs s i := by
  refine ⟨pickContext_some, fun h => ?_⟩
  cases hpick : pickContext tcbs s with
  | none =>
    have hnot := pickContext_none hpick h.lt
    rw [h.stops] at hnot
    cases hnot
  | some j => rw [(pickContext_some hpick).unique h]

theorem schedPickNext_of_firstStop {tcbs : TcbTable} {s : SchedState} {i : Nat}
    (h : FirstStop tcbs s i) (hid : (s.contexts i).tcbId < maxTcbs) :
    schedPickNext tcbs s = some (s.contexts i).tcbId := by
  simp only [schedPickNext, pickContext_eq_some_iff.mpr h, if_pos hid]

theorem ne_idleThread {id : UInt32} (h : id < maxTcbs) : id ≠ idleThread := by
  intro heq
  subst heq
  exact absurd h (by decide)

/-! ### The choice as a minimum -/

/-- A context whose thread may run now. -/
structure EligibleContext (tcbs : TcbTable) (s : SchedState) (i : Nat) : Prop where
  lt : i < maxSchedContexts.toNat
  bound : (s.contexts i).bound = true
  partition : (s.contexts i).partitionId = s.currentPartition
  budget : 0 < (s.contexts i).remainingUs
  runnable : (tcbs.threads (s.contexts i).tcbId.toNat).state = .runnable

/-- The order of the choice: the priority, and the index among equals. -/
def SchedState.rank (s : SchedState) (i : Nat) : ℕ ×ₗ ℕ := toLex ((s.contexts i).priority.toNat, i)

/-- The least of the eligible contexts. -/
structure BestContext (tcbs : TcbTable) (s : SchedState) (i : Nat) : Prop where
  eligible : EligibleContext tcbs s i
  least : ∀ j, EligibleContext tcbs s j → s.rank i ≤ s.rank j

/-- The contexts that are bound name threads of the table. -/
def NamesThreads (s : SchedState) : Prop :=
  ∀ i, i < maxSchedContexts.toNat → (s.contexts i).bound = true → (s.contexts i).tcbId < maxTcbs

section
variable {tcbs : TcbTable} {s : SchedState} {i : Nat}

theorem SchedState.rank_lt_iff (s : SchedState) (j i : Nat) : s.rank j < s.rank i ↔ s.Ahead j i := by
  show toLex _ < toLex _ ↔ _
  rw [Prod.Lex.toLex_lt_toLex]
  show _ < _ ∨ _ = _ ∧ _ < _ ↔ _
  rw [UInt8.toNat_inj, ← UInt8.lt_iff_toNat_lt]
  exact Iff.rfl

theorem NamesThreads.stops_iff (h : NamesThreads s) (hi : i < maxSchedContexts.toNat) :
    (s.contexts i).stops tcbs s.currentPartition = true ↔ EligibleContext tcbs s i := by
  have hpos : (s.contexts i).remainingUs ≠ 0 ↔ 0 < (s.contexts i).remainingUs :=
    UInt64.pos_iff_ne_zero.symm
  simp only [SchedContext.stops, SchedContext.isCandidate, tcbIsRunnable, Bool.and_eq_true,
    beq_iff_eq, bne_iff_ne, Bool.or_eq_true, decide_eq_true_eq, hpos]
  constructor
  · intro hstops
    obtain ⟨⟨⟨hbound, hpart⟩, hbudget⟩, hout | hrun⟩ := hstops
    · exact absurd (h i hi hbound) (UInt32.not_lt.mpr hout)
    · exact ⟨hi, hbound, hpart, hbudget, hrun⟩
  · intro helig
    exact ⟨⟨⟨helig.bound, helig.partition⟩, helig.budget⟩, Or.inr helig.runnable⟩

/-- Where the scan stops is the least of the eligible contexts. -/
theorem NamesThreads.firstStop_iff (h : NamesThreads s) : FirstStop tcbs s i ↔ BestContext tcbs s i := by
  constructor
  · intro hfirst
    refine ⟨(h.stops_iff hfirst.lt).mp hfirst.stops, fun j hj => ?_⟩
    rw [← not_lt, s.rank_lt_iff]
    exact hfirst.first j hj.lt ((h.stops_iff hj.lt).mpr hj)
  · intro hbest
    refine ⟨hbest.eligible.lt, (h.stops_iff hbest.eligible.lt).mpr hbest.eligible, fun j hj hstops => ?_⟩
    rw [← s.rank_lt_iff, not_lt]
    exact hbest.least j ((h.stops_iff hj).mp hstops)

end

/-- `sched_pick_next` returns the thread of the least eligible context, there is one whenever
some context is eligible, and it answers idle exactly when none is. -/
theorem schedPickNext_least {s : SchedState} (h : NamesThreads s) (tcbs : TcbTable) :
    (∀ i, BestContext tcbs s i → schedPickNext tcbs s = some (s.contexts i).tcbId) ∧
    ((∃ i, EligibleContext tcbs s i) → ∃ i, BestContext tcbs s i) ∧
    (schedPickNext tcbs s = some idleThread ↔ ∀ i, ¬ EligibleContext tcbs s i) := by
  have hreturns : ∀ i, BestContext tcbs s i → schedPickNext tcbs s = some (s.contexts i).tcbId := by
    intro i hbest
    exact schedPickNext_of_firstStop (h.firstStop_iff.mpr hbest)
      (h i hbest.eligible.lt hbest.eligible.bound)
  cases hpick : pickContext tcbs s with
  | none =>
    have hnone : ∀ i, ¬ EligibleContext tcbs s i := by
      intro i helig
      have hstops := (h.stops_iff helig.lt).mpr helig
      rw [pickContext_none hpick helig.lt] at hstops
      cases hstops
    have hidle : schedPickNext tcbs s = some idleThread := by
      simp only [schedPickNext, hpick]
    refine ⟨hreturns, fun hex => ?_, iff_of_true hidle hnone⟩
    obtain ⟨i, helig⟩ := hex
    exact absurd helig (hnone i)
  | some i =>
    have hbest := h.firstStop_iff.mp (pickContext_some hpick)
    have hid := h i hbest.eligible.lt hbest.eligible.bound
    refine ⟨hreturns, fun _ => ⟨i, hbest⟩, iff_of_false (fun hidle => ?_) fun hnone => ?_⟩
    · rw [hreturns i hbest] at hidle
      exact ne_idleThread hid (Option.some.inj hidle)
    · exact hnone i hbest.eligible

/-- Threads 1 and 2 with the same priority, in contexts 3 and 2. -/
def tiedState : SchedState :=
  (schedInit.setContext 3 (SchedContext.zero.bind 1 0 500 2000 255)).setContext 2
    (SchedContext.zero.bind 2 0 500 2000 255)

def allRunnable : TcbTable := { threads := fun _ => { Tcb.zero with state := .runnable }, count := 0 }

/-- Of two contexts with the lowest priority the one with the smaller index is chosen. -/
theorem schedPickNext_tied :
    NamesThreads tiedState ∧ BestContext allRunnable tiedState 2 ∧
      schedPickNext allRunnable tiedState = some 2 := by
  have hids : NamesThreads tiedState := by
    intro i hi
    revert i
    decide
  have hbest : BestContext allRunnable tiedState 2 := by
    refine ⟨⟨by decide, by decide, by decide, by decide, rfl⟩, fun j hj => ?_⟩
    have hbound := hj.bound
    by_cases h2 : j = 2
    · rw [h2]
    by_cases h3 : j = 3
    · rw [h3]
      decide
    · rw [tiedState, SchedState.setContext_ne h2, SchedState.setContext_ne h3] at hbound
      cases hbound
  exact ⟨hids, hbest, (schedPickNext_least hids allRunnable).1 2 hbest⟩

end Moonlight
