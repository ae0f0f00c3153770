/-
The scheduler as a cyclic executive.

With a tick every microsecond each partition is current at least for the whole of its
window in every major frame, and for no longer when the windows leave no gap.  Whenever
the tick moves to another partition it flushes the microarchitectural state first, so that
a flush stands between any two threads of different partitions.
-/
import Mathlib.Data.Nat.Periodic
import Moonlight.Sched.ExactUtilisation

namespace Moonlight

/-! ### Histories of calls -/

/-- A creation whose sum of offset and budget does not wrap, or another call. -/
def SchedCall.NoWrap : SchedCall → Prop
  | .create c => c.NoWrap
  | _ => True

/-- The windows are apart, and the first major frame starts at zero. -/
structure FrameInv (s : SchedState) : Prop where
  windows : WindowInv s
  start : s.majorFrameStart = 0

theorem partitionStep_start (s : SchedState) (c : PartitionCall) :
    (partitionStep s c).majorFrameStart = s.majorFrameStart := by
  obtain ⟨-, heq⟩ | heq := partitionStep_cases s c
  · rw [heq]
  · rw [heq]

theorem schedContextBind_frame (s : SchedState) (scId tcbId partId : UInt32)
    (budget period : UInt64) (prio : UInt8) :
    (schedContextBind s scId tcbId partId budget period prio).2 =
      { s with
        contexts := (schedContextBind s scId tcbId partId budget period prio).2.contexts } := by
  obtain ⟨-, heq⟩ | ⟨-, heq⟩ := schedContextBind_cases s scId tcbId partId budget period prio
  · rw [heq]
    rfl
  · rw [heq]

theorem FrameInv.step {s : SchedState} (h : FrameInv s) {c : SchedCall} (hc : c.NoWrap) :
    FrameInv (schedStep s c) := by
  cases c with
  | create c => exact ⟨h.windows.step hc, (partitionStep_start s c).trans h.start⟩
  | bind scId tcbId partId budget period prio =>
    rw [schedStep, schedContextBind_frame]
    exact ⟨h.windows.congr rfl rfl, h.start⟩
  | release sc => exact ⟨h.windows.congr rfl rfl, h.start⟩
  | tick now => exact ⟨h.windows.congr rfl rfl, h.start⟩

theorem calls_frameInv {calls : List SchedCall} (h : ∀ c ∈ calls, c.NoWrap) :
    FrameInv (Run.exec schedStep schedInit calls) := by
  have hstep : ∀ s c, SchedCall.NoWrap c → FrameInv s → FrameInv (schedStep s c) :=
    fun s c hc hs => hs.step hc
  exact Run.exec_invariant hstep (Run.guarded_of_forall h schedInit) ⟨schedInit_windowInv, rfl⟩

/-! ### A tick every microsecond -/

/-- The scheduler after the ticks of the `n` microseconds from `t` on. -/
def tickEvery (s : SchedState) (t n : Nat) : SchedState :=
  Run.exec schedTick s ((List.range n).map fun k => UInt64.ofNat (t + k))

/-- The partition that is current in microsecond `x`, when the ticks start at `t`. -/
def currentAt (s : SchedState) (t x : Nat) : Nat :=
  (tickEvery s t (x + 1 - t)).currentPartition.toNat

/-- The microseconds from `t` on, one major frame long, in which the partition is current. -/
def heldInstants (s : SchedState) (t p : Nat) : Finset Nat :=
  (Finset.Ico t (t + 10000)).filter fun x => currentAt s t x = p

theorem tickEvery_succ (s : SchedState) (t n : Nat) :
    tickEvery s t (n + 1) = schedTick (tickEvery s t n) (UInt64.ofNat (t + n)) := by
  simp only [tickEvery, Run.exec, List.range_succ, List.map_append, List.foldl_append]
  rfl

theorem FrameInv.ticks {s : SchedState} (h : FrameInv s) (t n : Nat) :
    FrameInv (tickEvery s t n) ∧ (tickEvery s t n).partitions = s.partitions := by
  induction n with
  | zero => exact ⟨h, rfl⟩
  | succ n ih =>
    rw [tickEvery_succ]
    exact ⟨ih.1.step (c := .tick _) trivial, ih.2⟩

theorem FrameInv.toNat_frameOffset {s : SchedState} (h : FrameInv s) {x : Nat} (hx : x < 2 ^ 64) :
    (frameOffset s (UInt64.ofNat x)).toNat = x % 10000 := by
  rw [frameOffset, h.start, UInt64.sub_zero, UInt64.toNat_mod, UInt64.toNat_ofNat',
    Nat.mod_eq_of_lt hx]
  rfl

/-- In its window a partition is current. -/
theorem FrameInv.currentAt_of_mem {s : SchedState} (h : FrameInv s) {t x p : Nat} (ht : t ≤ x)
    (hx : x < 2 ^ 64) (hmem : x % 10000 ∈ (s.partitions p).window) : currentAt s t x = p := by
  obtain ⟨n, rfl⟩ : ∃ n, x = t + n := ⟨x - t, by omega⟩
  obtain ⟨hinv, hparts⟩ := h.ticks t n
  have hcount : t + n + 1 - t = n + 1 := by omega
  rw [currentAt, hcount, tickEvery_succ]
  apply hinv.windows.tick_owner
  rw [hinv.toNat_frameOffset hx, hparts]
  exact hmem

/-- A window takes as many of any 10000 consecutive instants as it is long. -/
theorem card_window {p : TimePartition} (hfits : p.offsetUs.toNat + p.budgetUs.toNat ≤ 10000)
    (t : Nat) :
    ((Finset.Ico t (t + 10000)).filter fun x =>
      p.offsetUs.toNat ≤ x % 10000 ∧ x % 10000 < p.offsetUs.toNat + p.budgetUs.toNat).card =
        p.budgetUs.toNat := by
  have hperiodic : Function.Periodic (fun x =>
      p.offsetUs.toNat ≤ x % 10000 ∧ x % 10000 < p.offsetUs.toNat + p.budgetUs.toNat) 10000 := by
    intro x
    simp only [Nat.add_mod_right]
  have hrange : (Finset.range 10000).filter (fun x =>
      p.offsetUs.toNat ≤ x % 10000 ∧ x % 10000 < p.offsetUs.toNat + p.budgetUs.toNat) =
        Finset.Ico p.offsetUs.toNat (p.offsetUs.toNat + p.budgetUs.toNat) := by
    ext x
    simp only [Finset.mem_filter, Finset.mem_range, Finset.mem_Ico]
    constructor
    · rintro ⟨hx, hlow, hhigh⟩
      rw [Nat.mod_eq_of_lt hx] at hlow hhigh
      exact ⟨hlow, hhigh⟩
    · rintro ⟨hlow, hhigh⟩
      rw [Nat.mod_eq_of_lt (by omega)]
      exact ⟨by omega, hlow, hhigh⟩
  rw [Nat.filter_Ico_card_eq_of_periodic t 10000 _ hperiodic, Nat.count_eq_card_filter_range,
    hrange, Nat.card_Ico]
  omega

/-- After any history of creations without wrap, bindings and ticks, a tick every microsecond
for one major frame makes each partition current for at least its budget, and for exactly
its budget when every instant of the frame lies in some window. -/
theorem partition_share_of_frame {calls : List SchedCall} (h : ∀ c ∈ calls, c.NoWrap) {t : Nat}
    (ht : t + 10000 ≤ 2 ^ 64) (p : Nat) :
    let s := Run.exec schedStep schedInit calls
    (s.partitions p).budgetUs.toNat ≤ (heldInstants s t p).card ∧
    ((∀ o, o < 10000 → ∃ q, o ∈ (s.partitions q).window) →
      (heldInstants s t p).card = (s.partitions p).budgetUs.toNat) := by
  intro s
  have hinv : FrameInv s := calls_frameInv h
  have hcard := card_window (hinv.windows.fits p) t
  have hsub : ((Finset.Ico t (t + 10000)).filter fun x =>
      (s.partitions p).offsetUs.toNat ≤ x % 10000 ∧
        x % 10000 < (s.partitions p).offsetUs.toNat + (s.partitions p).budgetUs.toNat) ⊆
      heldInstants s t p := by
    intro x hx
    obtain ⟨hrange, hmem⟩ := Finset.mem_filter.mp hx
    obtain ⟨hlow, hhigh⟩ := Finset.mem_Ico.mp hrange
    exact Finset.mem_filter.mpr ⟨hrange, hinv.currentAt_of_mem hlow (by omega) hmem⟩
  refine ⟨?_, fun hcover => ?_⟩
  · rw [← hcard]
    exact Finset.card_le_card hsub
  · -- without a gap the owner of an instant is the one that is current
    rw [← hcard]
    refine congrArg Finset.card (Finset.Subset.antisymm (fun x hx => ?_) hsub)
    obtain ⟨hrange, hcur⟩ := Finset.mem_filter.mp hx
    obtain ⟨hlow, hhigh⟩ := Finset.mem_Ico.mp hrange
    obtain ⟨q, hq⟩ := hcover (x % 10000) (Nat.mod_lt _ (by decide))
    have howner := hinv.currentAt_of_mem hlow (by omega) hq
    obtain rfl : q = p := howner.symm.trans hcur
    exact Finset.mem_filter.mpr ⟨hrange, hq⟩

/-- The three partitions of `kernel_boot` fill the frame. -/
def bootPartitions : List SchedCall :=
  [.create ⟨0, 0, 6000, 1⟩, .create ⟨1, 6000, 2000, 3⟩, .create ⟨2, 8000, 2000, 2⟩]

theorem partition_share_boot :
    (heldInstants (Run.exec schedStep schedInit bootPartitions) 123456 1).card = 2000 := by
  have hcalls : ∀ c ∈ bootPartitions, c.NoWrap := by
    simp only [bootPartitions, List.forall_mem_cons]
    exact ⟨show PartitionCall.NoWrap _ by decide, show PartitionCall.NoWrap _ by decide,
      show PartitionCall.NoWrap _ by decide, fun _ h => by cases h⟩
  refine (partition_share_of_frame hcalls (by decide) 1).2 fun o ho => ?_
  by_cases h0 : o < 6000
  · exact ⟨0, Nat.zero_le o, h0⟩
  by_cases h1 : o < 8000
  · exact ⟨1, Nat.not_lt.mp h0, h1⟩
  · exact ⟨2, Nat.not_lt.mp h1, ho⟩

/-! ### Flushes -/

/-- The argument of the call of `sched_flush_partition`, if the tick makes one. -/
def schedTickFlush (s : SchedState) (now : UInt64) : Option UInt32 :=
  match partitionAt s now with
  | some i => if UInt32.ofNat i ≠ s.currentPartition then some s.currentPartition else none
  | none => none

/-- A call that changes the scheduler, or a choice of the next thread. -/
inductive SchedEvent where
  | call (c : SchedCall)
  | pick (tcbs : TcbTable)

/-- What the rest of the system sees: a partition is flushed, or a thread is to run on
behalf of a partition. -/
inductive SchedOutput where
  | flush (old : UInt32)
  | run (thread partition : UInt32)
  deriving DecidableEq, Repr

def SchedEvent.step (s : SchedState) : SchedEvent → SchedState
  | .call c => schedStep s c
  | .pick _ => s

def SchedEvent.outputs (s : SchedState) : SchedEvent → List SchedOutput
  | .call (.tick now) => (schedTickFlush s now).toList.map .flush
  | .call _ => []
  | .pick tcbs =>
      match pickContext tcbs s with
      | some i => [.run (s.contexts i).tcbId (s.contexts i).partitionId]
      | none => []

/-- The outputs of a run in order. -/
def schedOutputs : SchedState → List SchedEvent → List SchedOutput
  | _, [] => []
  | s, e :: es => e.outputs s ++ schedOutputs (e.step s) es

/-- While partition `p` is current without a flush of it, only its threads run. -/
def OnlyRuns (p : UInt32) : List SchedOutput → Prop
  | [] => True
  | .flush old :: outs => old = p ∨ OnlyRuns p outs
  | .run _ q :: outs => q = p ∧ OnlyRuns p outs

theorem schedStep_current {s : SchedState} {c : SchedCall}
    (h : SchedEvent.outputs s (.call c) = []) :
    (schedStep s c).currentPartition = s.currentPartition := by
  cases c with
  | create c =>
    obtain ⟨-, heq⟩ | heq := partitionStep_cases s c
    · rw [schedStep, heq]
    · rw [schedStep, heq]
  | bind scId tcbId partId budget period prio => rw [schedStep, schedContextBind_frame]
  | release sc => rfl
  | tick now =>
    simp only [SchedEvent.outputs, schedTickFlush] at h
    simp only [schedStep, schedTick]
    cases hat : partitionAt s now with
    | none => rfl
    | some i =>
      rw [hat] at h
      simp only at h
      by_cases hne : UInt32.ofNat i ≠ s.currentPartition
      · rw [if_pos hne] at h
        cases h
      · exact not_not.mp hne

/-- A tick flushes the partition that was current, and a chosen thread belongs to it. -/
theorem SchedEvent.outputs_cases (s : SchedState) (e : SchedEvent) :
    (e.outputs s = [] ∧ (e.step s).currentPartition = s.currentPartition) ∨
    e.outputs s = [.flush s.currentPartition] ∨
    ∃ thread, e.outputs s = [.run thread s.currentPartition] ∧ e.step s = s := by
  cases e with
  | call c =>
    by_cases hnone : SchedEvent.outputs s (.call c) = []
    · exact Or.inl ⟨hnone, schedStep_current hnone⟩
    · cases c with
      | tick now =>
        refine Or.inr (Or.inl ?_)
        simp only [SchedEvent.outputs, schedTickFlush] at hnone ⊢
        split at hnone
        · next i hat =>
          split_ifs at hnone ⊢ with hne
          · rfl
          · exact absurd rfl hnone
        · exact absurd rfl hnone
      | create c => exact absurd rfl hnone
      | bind scId tcbId partId budget period prio => exact absurd rfl hnone
      | release sc => exact absurd rfl hnone
  | pick tcbs =>
    simp only [SchedEvent.outputs]
    cases hpick : pickContext tcbs s with
    | none => exact Or.inl ⟨rfl, rfl⟩
    | some i =>
      have hpart := (pickContext_some hpick).partition
      refine Or.inr (Or.inr ⟨(s.contexts i).tcbId, ?_, rfl⟩)
      simp only [hpart]

theorem schedOutputs_onlyRuns (s : SchedState) (es : List SchedEvent) :
    OnlyRuns s.currentPartition (schedOutputs s es) := by
  induction es generalizing s with
  | nil => trivial
  | cons e es ih =>
    rw [schedOutputs]
    rcases e.outputs_cases s with ⟨hnone, hcur⟩ | hflush | ⟨thread, hrun, hstep⟩
    · rw [hnone, List.nil_append, ← hcur]
      exact ih (e.step s)
    · rw [hflush]
      exact Or.inl rfl
    · rw [hrun, hstep]
      exact ⟨rfl, ih s⟩

/-- After a thread of partition `p` has run, the rest of the run starts with `p` current. -/
theorem onlyRuns_after_run {s : SchedState} {es : List SchedEvent} {before rest : List SchedOutput}
    {thread p : UInt32} (h : schedOutputs s es = before ++ .run thread p :: rest) :
    OnlyRuns p rest := by
  induction es generalizing s before with
  | nil =>
    rw [schedOutputs] at h
    exact absurd h.symm (by simp)
  | cons e es ih =>
    rw [schedOutputs] at h
    rcases e.outputs_cases s with ⟨hnone, -⟩ | hflush | ⟨thread', hrun, hstep⟩
    · rw [hnone, List.nil_append] at h
      exact ih h
    · rw [hflush] at h
      cases before with
      | nil => cases h
      | cons o before => exact ih (List.cons.inj h).2
    · rw [hrun, hstep] at h
      cases before with
      | nil =>
        obtain ⟨hhead, rfl⟩ := List.cons.inj h
        cases hhead
        exact schedOutputs_onlyRuns s es
      | cons o before => exact ih (List.cons.inj h).2

theorem OnlyRuns.flush_mem {p q thread : UInt32} {between rest : List SchedOutput}
    (h : OnlyRuns p (between ++ .run thread q :: rest)) (hne : q ≠ p) : .flush p ∈ between := by
  induction between with
  | nil => exact absurd h.1 hne
  | cons o between ih =>
    cases o with
    | flush old =>
      rcases h with rfl | hrest
      · exact List.mem_cons_self
      · exact List.mem_cons_of_mem _ (ih hrest)
    | run thread' q' => exact List.mem_cons_of_mem _ (ih h.2)

/-- In every run of the scheduler, from any state and with any thread tables, between a
thread that runs for one partition and a later one that runs for another the partition of
the first is flushed. -/
theorem flush_between_partitions {s : SchedState} {es : List SchedEvent}
    {before between after : List SchedOutput} {thread thread' p q : UInt32} (hne : q ≠ p)
    (h : schedOutputs s es =
      before ++ .run thread p :: (between ++ .run thread' q :: after)) :
    .flush p ∈ between :=
  (onlyRuns_after_run h).flush_mem hne

/-- Two contexts in partitions 0 and 1, each chosen in its window. -/
def flushRun : List SchedEvent :=
  bootPartitions.map .call ++
    [.call (.bind 0 1 0 500 2000 5), .call (.bind 1 2 1 500 2000 5), .call (.tick 100),
      .pick allRunnable, .call (.tick 6100), .pick allRunnable]

theorem flush_between_windows :
    schedOutputs schedInit flushRun = [] ++ .run 1 0 :: ([.flush 0] ++ .run 2 1 :: []) ∧
      .flush 0 ∈ [SchedOutput.flush 0] := by
  have hrun :
      schedOutputs schedInit flushRun = [] ++ .run 1 0 :: ([.flush 0] ++ .run 2 1 :: []) := by
    decide +kernel
  exact ⟨hrun, flush_between_partitions (by decide) hrun⟩

end Moonlight
