/-
Budgets.

Binding a context fills its budget and a tick may refill it, but nothing takes from it: no
code charges a thread for the time it runs.  In every state of the system a bound context
has its whole budget left, so the budget plays no part in the choice of the next thread,
and no amount of ticks inside a window moves the processor from one thread to another.
-/
import Moonlight.System.Step

namespace Moonlight

/-- The context has its whole budget left, and that is not nothing. -/
def SchedContext.Full (c : SchedContext) : Prop :=
  c.bound = true → c.remainingUs = c.budgetUs ∧ c.budgetUs ≠ 0

def SchedState.Full (s : SchedState) : Prop := ∀ i, i < maxSchedContexts.toNat → (s.contexts i).Full

variable {env : BootEnv} {k k' : Kernel} {s s' : SchedState}

theorem full_of_noBoundContext (h : NoBoundContext s) : s.Full := by
  intro i hi hbound
  rw [h i hi] at hbound
  cases hbound

theorem SchedState.Full.releases (h : s.Full) (hs : s.Releases s') : s'.Full := by
  intro i hi hbound
  have hkept := hs.bound hbound
  rw [hkept] at hbound ⊢
  exact h i hi hbound

theorem SchedState.Full.bind (h : s.Full) {budget : UInt64} (hbudget : budget ≠ 0) (sc : Nat)
    (tcbId partId : UInt32) (period : UInt64) (prio : UInt8) :
    (s.setContext sc ((s.contexts sc).bind tcbId partId budget period prio)).Full := by
  intro i hi
  by_cases hsc : i = sc
  · subst hsc
    rw [SchedState.setContext_self]
    exact fun _ => ⟨rfl, hbudget⟩
  · rw [SchedState.setContext_ne hsc]
    exact h i hi

theorem SchedContext.Full.replenish {c : SchedContext} (h : c.Full) (now : UInt64) :
    (c.replenish now).Full := by
  unfold SchedContext.replenish
  split_ifs
  · exact fun hbound => ⟨rfl, (h hbound).2⟩
  · exact h

theorem SchedState.Full.tick (h : s.Full) (now : UInt64) : (schedTick s now).Full := by
  intro i hi
  have hcontext : (schedTick s now).contexts i = (s.contexts i).replenish now := if_pos hi
  rw [hcontext]
  exact (h i hi).replenish now

theorem SchedState.Full.step (h : k.sched.Full) {e : SystemEvent} (hstep : SystemStep env k e k') :
    k'.sched.Full := by
  cases hstep.cases with
  | refused => exact h
  | ipc heff =>
    rw [heff.tablesKept.sched]
    exact h
  | invoke _ hinv =>
    cases hinv with
    | bind hbind => exact h.bind hbind.2.2.2.2.1 _ _ _ _ _
    | thread _ _ =>
      rw [(setTcbAt_tablesKept ..).sched]
      exact h
    | _ => exact h
  | tick => exact h.tick _
  | @create args =>
    obtain ⟨-, -, hsched⟩ | ⟨t, -, -, -, hsched⟩ | ⟨t, sc, stack, hnew⟩ := create_cases env k args
    · rw [hsched]
      exact h
    · exact h.releases hsched.releases
    · rw [hnew.sched]
      exact h.bind hnew.succeeds.budget.2 _ _ _ _ _
  | destroy _ => exact h.releases (withoutThread_releases ..)

/-! ### The choice -/

/-- The fields `sched_pick_next` reads, the budget apart, are the same. -/
structure SameOwner (c c' : SchedContext) : Prop where
  bound : c'.bound = c.bound
  tcbId : c'.tcbId = c.tcbId
  partitionId : c'.partitionId = c.partitionId
  priority : c'.priority = c.priority

theorem replenish_sameOwner (c : SchedContext) (now : UInt64) : SameOwner c (c.replenish now) := by
  unfold SchedContext.replenish
  split_ifs
  · exact ⟨rfl, rfl, rfl, rfl⟩
  · exact ⟨rfl, rfl, rfl, rfl⟩

theorem tick_sameOwner (s : SchedState) (now : UInt64) (i : Nat) :
    SameOwner (s.contexts i) ((schedTick s now).contexts i) := by
  show SameOwner (s.contexts i) (if i < maxSchedContexts.toNat then _ else _)
  split_ifs
  · exact replenish_sameOwner ..
  · exact ⟨rfl, rfl, rfl, rfl⟩

/-- Ticks keep the budgets full and the contexts with their owners. -/
theorem SchedState.Full.ticks (h : s.Full) (nows : List UInt64) :
    (Run.exec schedTick s nows).Full ∧
      ∀ i, SameOwner (s.contexts i) ((Run.exec schedTick s nows).contexts i) := by
  induction nows generalizing s with
  | nil => exact ⟨h, fun i => ⟨rfl, rfl, rfl, rfl⟩⟩
  | cons now nows ih =>
    obtain ⟨hfull, hsame⟩ := ih (h.tick now)
    refine ⟨hfull, fun i => ?_⟩
    have hfirst := tick_sameOwner s now i
    have hrest := hsame i
    exact ⟨hrest.bound.trans hfirst.bound, hrest.tcbId.trans hfirst.tcbId,
      hrest.partitionId.trans hfirst.partitionId, hrest.priority.trans hfirst.priority⟩

/-- With full budgets a context is a candidate by its owner and its partition alone. -/
theorem SchedContext.Full.isCandidate {c : SchedContext} (h : c.Full) (part : UInt32) :
    c.isCandidate part = (c.bound && c.partitionId == part) := by
  unfold SchedContext.isCandidate
  cases hbound : c.bound with
  | false => rfl
  | true =>
    obtain ⟨hremaining, hbudget⟩ := h hbound
    have hne : (c.remainingUs != 0) = true := bne_iff_ne.mpr (hremaining ▸ hbudget)
    rw [hne, Bool.and_true]

theorem SameOwner.stops {c c' : SchedContext} (h : SameOwner c c') (hc : c.Full) (hc' : c'.Full)
    (tcbs : TcbTable) (part : UInt32) : c'.stops tcbs part = c.stops tcbs part := by
  rw [SchedContext.stops, SchedContext.stops, hc.isCandidate, hc'.isCandidate, h.bound, h.tcbId,
    h.partitionId]

theorem firstStop_congr (hs : s.Full) (hs' : s'.Full)
    (hpart : s'.currentPartition = s.currentPartition)
    (hsame : ∀ i, SameOwner (s.contexts i) (s'.contexts i)) (tcbs : TcbTable) (i : Nat) :
    FirstStop tcbs s' i ↔ FirstStop tcbs s i := by
  have hstops : ∀ {j}, j < maxSchedContexts.toNat →
      (s'.contexts j).stops tcbs s'.currentPartition =
        (s.contexts j).stops tcbs s.currentPartition :=
    fun {j} hj => by rw [hpart]; exact (hsame j).stops (hs j hj) (hs' j hj) tcbs _
  have hahead : ∀ j, s'.Ahead j i ↔ s.Ahead j i := fun j => by
    rw [SchedState.Ahead, SchedState.Ahead, (hsame j).priority, (hsame i).priority]
  constructor
  · intro h
    refine ⟨h.lt, by rw [← hstops h.lt]; exact h.stops, fun j hj hstop => ?_⟩
    rw [← hahead]
    exact h.first j hj (by rw [hstops hj]; exact hstop)
  · intro h
    refine ⟨h.lt, by rw [hstops h.lt]; exact h.stops, fun j hj hstop => ?_⟩
    rw [hahead]
    exact h.first j hj (by rw [← hstops hj]; exact hstop)

theorem schedPickNext_congr (hs : s.Full) (hs' : s'.Full)
    (hpart : s'.currentPartition = s.currentPartition)
    (hsame : ∀ i, SameOwner (s.contexts i) (s'.contexts i)) (tcbs : TcbTable) :
    schedPickNext tcbs s' = schedPickNext tcbs s := by
  have hpick : pickContext tcbs s' = pickContext tcbs s := by
    refine Option.ext fun i => ?_
    rw [pickContext_eq_some_iff, pickContext_eq_some_iff]
    exact firstStop_congr hs hs' hpart hsame tcbs i
  rw [schedPickNext, schedPickNext, hpick]
  cases pickContext tcbs s with
  | none => rfl
  | some i => simp only [(hsame i).tcbId]

/-! ### Every run -/

/-- A context whose owner may run, whatever it has run already. -/
structure ReadyContext (tcbs : TcbTable) (s : SchedState) (i : Nat) : Prop where
  lt : i < maxSchedContexts.toNat
  bound : (s.contexts i).bound = true
  partition : (s.contexts i).partitionId = s.currentPartition
  runnable : (tcbs.threads (s.contexts i).tcbId.toNat).state = .runnable

theorem SchedState.Full.eligible_iff (h : s.Full) (tcbs : TcbTable) (i : Nat) :
    EligibleContext tcbs s i ↔ ReadyContext tcbs s i := by
  constructor
  · intro hi
    exact ⟨hi.lt, hi.bound, hi.partition, hi.runnable⟩
  · intro hi
    obtain ⟨hremaining, hbudget⟩ := h i hi.lt hi.bound
    refine ⟨hi.lt, hi.bound, hi.partition, ?_, hi.runnable⟩
    rw [hremaining]
    exact UInt64.pos_iff_ne_zero.mpr hbudget

/-- In every state of the system a bound context has its whole budget left.  As long as the
bound contexts name threads of the table, a ready context is passed over only for one that
is ahead of it by priority or index, and while the partition stays the same no further tick
changes the choice. -/
theorem budgets_never_spent {k₀ : Kernel} (hnone : NoBoundContext k₀.sched)
    {es : List SystemEvent} (hrun : Run.Steps (SystemStep env) k₀ es k) :
    (∀ i, i < maxSchedContexts.toNat → (k.sched.contexts i).bound = true →
      (k.sched.contexts i).remainingUs = (k.sched.contexts i).budgetUs ∧
      (k.sched.contexts i).budgetUs ≠ 0) ∧
    (NamesThreads k.sched → ∀ i, ReadyContext k.tcbs k.sched i →
      ∃ j, ReadyContext k.tcbs k.sched j ∧ k.sched.rank j ≤ k.sched.rank i ∧
        schedPickNext k.tcbs k.sched = some (k.sched.contexts j).tcbId) ∧
    ∀ nows, (Run.exec schedTick k.sched nows).currentPartition = k.sched.currentPartition →
      schedPickNext k.tcbs (Run.exec schedTick k.sched nows) = schedPickNext k.tcbs k.sched := by
  have hkeep : ∀ k e k', SystemStep env k e k' → k.sched.Full → k'.sched.Full :=
    fun _ _ _ hstep h => h.step hstep
  have hfull : k.sched.Full := Run.Steps.invariant hkeep hrun (full_of_noBoundContext hnone)
  refine ⟨hfull, fun hnames i hi => ?_, fun nows hpart => ?_⟩
  · have hleast := schedPickNext_least hnames k.tcbs
    obtain ⟨j, hbest⟩ := hleast.2.1 ⟨i, (hfull.eligible_iff k.tcbs i).mpr hi⟩
    exact ⟨j, (hfull.eligible_iff k.tcbs j).mp hbest.eligible,
      hbest.least i ((hfull.eligible_iff k.tcbs i).mpr hi), hleast.1 j hbest⟩
  · obtain ⟨hticked, hsame⟩ := hfull.ticks nows
    exact schedPickNext_congr hfull hticked hpart hsame k.tcbs

/-- One process is created and a tick passes. -/
def helloRun : List SystemEvent := [.create (helloArgs plainBoot), .tick 500]

theorem budgets_never_spent_hello :
    NoBoundContext (bootRoot plainBoot).sched ∧
    ∃ k, Run.Steps (SystemStep plainBoot) (bootRoot plainBoot) helloRun k ∧
      (k.sched.contexts 0).bound = true ∧
      (k.sched.contexts 0).remainingUs = (k.sched.contexts 0).budgetUs := by
  have hnone := bootRoot_noBoundContext plainBoot
  have hrun : Run.Steps (SystemStep plainBoot) (bootRoot plainBoot) helloRun _ :=
    .cons (Fuel.yields_of_forall fun _ => rfl) (.cons rfl .nil)
  have hbound : ((schedTick ((bootRoot plainBoot).create plainBoot (helloArgs plainBoot)).2.2.sched
      500).contexts 0).bound = true := by decide +kernel
  exact ⟨hnone, _, hrun, hbound, ((budgets_never_spent hnone hrun).1 0 (by decide) hbound).1⟩

end Moonlight
