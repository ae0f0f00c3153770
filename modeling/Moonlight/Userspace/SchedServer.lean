/-
User-space admission.

`sched_server` keeps the tasks it has admitted and tests a new one with the arithmetic of
`sched_is_schedulable`: one partition at a time, with an early exit, and with the candidate
added at the end.  Beside a kernel that binds the same tasks the two tests decide alike,
because the tasks and the bound contexts take the same whole percents from every partition.

The message loop `sched_server_run` is in `Moonlight.Userspace.SchedRequests`.
-/
import Moonlight.Sched.ExactUtilisation

namespace Moonlight

/-- `task_cfg_t`. -/
structure TaskCfg where
  id : UInt32
  partition : UInt32
  budget : UInt64
  period : UInt64
  prio : UInt8
  rt : Bool
  deriving DecidableEq, Repr

def TaskCfg.zero : TaskCfg :=
  { id := 0, partition := 0, budget := 0, period := 0, prio := 0, rt := false }

/-- The static variables of the server. -/
structure SchedServer where
  tasks : Nat → TaskCfg
  taskCount : UInt32

def SchedServer.zero : SchedServer := { tasks := fun _ => TaskCfg.zero, taskCount := 0 }

def maxTasks : UInt32 := 64

/-- The loop of `is_schedulable_for_partition` over the tasks with these indices; `none` is
the return inside it. -/
def partitionLoop (tasks : Nat → TaskCfg) (part : UInt32) : List Nat → UInt64 → Option UInt64
  | [], sum => some sum
  | i :: rest, sum =>
    if (tasks i).partition = part then
      let sum := sum + (tasks i).budget * 100 / (tasks i).period
      if sum > 99 then none else partitionLoop tasks part rest sum
    else partitionLoop tasks part rest sum

/-- `is_schedulable_for_partition`, with `none` for a null `new_task`. -/
def isSchedulableForPartition (sv : SchedServer) (part : UInt32) (newTask : Option TaskCfg) : Bool :=
  match partitionLoop sv.tasks part (List.range sv.taskCount.toNat) 0 with
  | none => false
  | some sum =>
    match newTask with
    | none => sum ≤ 99
    | some t =>
      if t.partition = part then
        let sum := sum + t.budget * 100 / t.period
        if sum > 99 then false else sum ≤ 99
      else sum ≤ 99

def schedAdmit (sv : SchedServer) (cfg : TaskCfg) : Int × SchedServer :=
  if isSchedulableForPartition sv cfg.partition (some cfg) = false then (-1, sv)
  else if sv.taskCount ≥ maxTasks then (-1, sv)
  else
    (0, { tasks := Function.update sv.tasks sv.taskCount.toNat cfg, taskCount := sv.taskCount + 1 })

def schedIsAdmissible (sv : SchedServer) : Bool :=
  (List.range 8).all fun p => isSchedulableForPartition sv (UInt32.ofNat p) none

/-! ### What the tasks take -/

/-- What a task takes from partition `p`. -/
def TaskCfg.share (t : TaskCfg) (p : UInt32) : UInt64 :=
  if t.partition = p then t.budget * 100 / t.period else 0

/-- The whole percents the tasks with these indices take. -/
def taskTotal (tasks : Nat → TaskCfg) (l : List Nat) (p : UInt32) : Nat :=
  (l.map fun i => ((tasks i).share p).toNat).sum

def SchedServer.total (sv : SchedServer) (p : UInt32) : Nat :=
  taskTotal sv.tasks (List.range sv.taskCount.toNat) p

theorem toNat_add_share (sum : UInt64) {t : TaskCfg} {p : UInt32} (hsum : sum.toNat ≤ 99)
    (ht : (t.share p).toNat ≤ 100) (hp : t.partition = p) :
    (sum + t.budget * 100 / t.period).toNat = sum.toNat + (t.share p).toNat := by
  have hshare : t.share p = t.budget * 100 / t.period := if_pos hp
  rw [← hshare, UInt64.toNat_add]
  exact Nat.mod_eq_of_lt (by omega)

/-- While the tasks fit, the loop runs to its end and adds them up. -/
theorem partitionLoop_of_fits (tasks : Nat → TaskCfg) (p : UInt32) (l : List Nat) (sum : UInt64)
    (h : sum.toNat + taskTotal tasks l p ≤ 99) :
    ∃ r, partitionLoop tasks p l sum = some r ∧ r.toNat = sum.toNat + taskTotal tasks l p := by
  induction l generalizing sum with
  | nil => exact ⟨sum, rfl, rfl⟩
  | cons i rest ih =>
    have htotal : taskTotal tasks (i :: rest) p =
        ((tasks i).share p).toNat + taskTotal tasks rest p := by
      rw [taskTotal, List.map_cons, List.sum_cons]
      rfl
    rw [htotal] at h ⊢
    rw [partitionLoop]
    by_cases hp : (tasks i).partition = p
    · have hadd := toNat_add_share sum (by omega) (by omega) hp
      have hle : ¬ sum + (tasks i).budget * 100 / (tasks i).period > 99 := by
        rw [gt_iff_lt, UInt64.lt_iff_toNat_lt, hadd]
        show ¬ 99 < _
        omega
      rw [if_pos hp, if_neg hle]
      obtain ⟨r, hr, hval⟩ := ih (sum + (tasks i).budget * 100 / (tasks i).period) (by omega)
      exact ⟨r, hr, by omega⟩
    · have hzero : ((tasks i).share p).toNat = 0 := congrArg UInt64.toNat (if_neg hp)
      rw [if_neg hp]
      obtain ⟨r, hr, hval⟩ := ih sum (by omega)
      exact ⟨r, hr, by omega⟩

/-- The test of a candidate, beside tasks that fit. -/
theorem isSchedulableForPartition_iff {sv : SchedServer} {t : TaskCfg}
    (hfits : sv.total t.partition ≤ 99) (ht : (t.share t.partition).toNat ≤ 100) :
    isSchedulableForPartition sv t.partition (some t) = true ↔
      sv.total t.partition + (t.share t.partition).toNat ≤ 99 := by
  obtain ⟨r, hr, hval⟩ := partitionLoop_of_fits sv.tasks t.partition
    (List.range sv.taskCount.toNat) 0 (by rwa [UInt64.toNat_zero, Nat.zero_add])
  have hr99 : r.toNat = sv.total t.partition := by
    rw [hval]
    exact Nat.zero_add (sv.total t.partition)
  have hadd := toNat_add_share r (by omega) ht rfl
  simp only [isSchedulableForPartition, hr, if_true]
  rw [← hr99, ← hadd]
  have hle : ∀ w : UInt64, w > 99 ↔ ¬ w.toNat ≤ 99 := by
    intro w
    rw [gt_iff_lt, UInt64.lt_iff_toNat_lt]
    exact Nat.not_le.symm
  split_ifs with hbig
  · exact iff_of_false not_false ((hle _).mp hbig)
  · rw [hle, not_not] at hbig
    exact iff_of_true (decide_eq_true (UInt64.le_iff_toNat_le.mpr hbig)) hbig

/-- The server with one more task. -/
def SchedServer.push (sv : SchedServer) (cfg : TaskCfg) : SchedServer :=
  { tasks := Function.update sv.tasks sv.taskCount.toNat cfg, taskCount := sv.taskCount + 1 }

theorem SchedServer.push_last (sv : SchedServer) (cfg : TaskCfg) :
    (sv.push cfg).tasks sv.taskCount.toNat = cfg := Function.update_self ..

theorem SchedServer.push_of_ne {sv : SchedServer} {i : Nat} (h : i ≠ sv.taskCount.toNat)
    (cfg : TaskCfg) : (sv.push cfg).tasks i = sv.tasks i := Function.update_of_ne h ..

theorem SchedServer.toNat_push {sv : SchedServer} (h : sv.taskCount < maxTasks) (cfg : TaskCfg) :
    (sv.push cfg).taskCount.toNat = sv.taskCount.toNat + 1 := by
  have hlt : sv.taskCount.toNat < 64 := UInt32.lt_iff_toNat_lt.mp h
  rw [push, UInt32.toNat_add]
  show (sv.taskCount.toNat + 1) % 2 ^ 32 = _
  omega

theorem SchedServer.total_push {sv : SchedServer} (h : sv.taskCount < maxTasks) (cfg : TaskCfg)
    (p : UInt32) : (sv.push cfg).total p = sv.total p + (cfg.share p).toNat := by
  have hold : ∀ i ∈ List.range sv.taskCount.toNat,
      (((sv.push cfg).tasks i).share p).toNat = ((sv.tasks i).share p).toNat := by
    intro i hi
    rw [push_of_ne (Nat.ne_of_lt (List.mem_range.mp hi))]
  rw [total, toNat_push h, taskTotal, List.range_succ, List.map_append, List.sum_append,
    List.map_congr_left hold, List.map_singleton, List.sum_singleton, push_last]
  rfl

theorem schedAdmit_cases {sv : SchedServer} {cfg : TaskCfg} (hfits : sv.total cfg.partition ≤ 99)
    (hshare : (cfg.share cfg.partition).toNat ≤ 100) (hroom : sv.taskCount < maxTasks) :
    (sv.total cfg.partition + (cfg.share cfg.partition).toNat ≤ 99 ∧
      schedAdmit sv cfg = (0, sv.push cfg)) ∨
    (¬ sv.total cfg.partition + (cfg.share cfg.partition).toNat ≤ 99 ∧
      schedAdmit sv cfg = (-1, sv)) := by
  have htest := isSchedulableForPartition_iff hfits hshare
  unfold schedAdmit
  by_cases hle : sv.total cfg.partition + (cfg.share cfg.partition).toNat ≤ 99
  · rw [if_neg (by rw [htest.mpr hle]; exact Bool.noConfusion), if_neg (UInt32.not_le.mpr hroom)]
    exact Or.inl ⟨hle, rfl⟩
  · rw [if_pos (Bool.eq_false_iff.mpr fun h => hle (htest.mp h))]
    exact Or.inr ⟨hle, rfl⟩

/-! ### The kernel beside the server -/

/-- A task and the context and thread the kernel would bind it to. -/
structure TaskRequest where
  cfg : TaskCfg
  scId : UInt32
  tcbId : UInt32

/-- Bind the task, and take it back if the partitions are not schedulable with it. -/
def kernelAdmit (s : SchedState) (r : TaskRequest) : Bool × SchedState :=
  match schedContextBind s r.scId r.tcbId r.cfg.partition r.cfg.budget r.cfg.period r.cfg.prio with
  | (.ok, s') => if schedIsSchedulable s' then (true, s') else (false, s'.release r.scId.toNat)
  | (_, s') => (false, s')

structure AdmissionState where
  server : SchedServer
  sched : SchedState

/-- The request goes to both sides. -/
def admissionStep (a : AdmissionState) (r : TaskRequest) : AdmissionState :=
  { server := (schedAdmit a.server r.cfg).2, sched := (kernelAdmit a.sched r).2 }

/-- The task has a budget within its period and within the window of an active partition, and
its context is free. -/
structure TaskRequest.Valid (a : AdmissionState) (r : TaskRequest) : Prop where
  budget : 0 < r.cfg.budget ∧ r.cfg.budget ≤ r.cfg.period
  partition : r.cfg.partition < maxPartitions
  active : (a.sched.partitions r.cfg.partition.toNat).active = true
  window : r.cfg.budget ≤ (a.sched.partitions r.cfg.partition.toNat).budgetUs
  context : r.scId < maxSchedContexts
  free : (a.sched.contexts r.scId.toNat).bound = false

/-- The context the kernel binds for the request. -/
def TaskRequest.context (r : TaskRequest) (s : SchedState) : SchedContext :=
  (s.contexts r.scId.toNat).bind r.tcbId r.cfg.partition r.cfg.budget r.cfg.period r.cfg.prio

theorem TaskRequest.share_context (r : TaskRequest) (s : SchedState) (p : UInt32) :
    (r.context s).share p = r.cfg.share p := by
  simp [TaskRequest.context, SchedContext.bind, SchedContext.share, TaskCfg.share]

section
variable {a : AdmissionState} {r : TaskRequest}

theorem TaskRequest.Valid.budgeted (h : r.Valid a) : (r.context a.sched).Budgeted := by
  intro _
  refine ⟨fun hz => ?_, h.budget.2⟩
  have hpos := UInt64.lt_iff_toNat_lt.mp h.budget.1
  have hle := UInt64.le_iff_toNat_le.mp h.budget.2
  rw [show r.cfg.period = 0 from hz] at hle
  exact absurd (Nat.lt_of_lt_of_le hpos hle) (Nat.lt_irrefl 0)

theorem TaskRequest.Valid.allowed (h : r.Valid a) :
    BindAllowed a.sched r.scId r.cfg.partition r.cfg.budget r.cfg.period :=
  ⟨h.context, h.partition, h.active, fun hz => absurd h.budget.1 (by rw [hz]; exact UInt64.lt_irrefl 0),
    (h.budgeted rfl).1, h.budget.2, h.window⟩

theorem TaskRequest.Valid.share_le (h : r.Valid a) (p : UInt32) : (r.cfg.share p).toNat ≤ 100 := by
  rw [← r.share_context a.sched]
  exact h.budgeted.share_le p

end

/-- The tasks and the bound contexts take the same from every partition, and leave some of
it. -/
structure InStep (a : AdmissionState) : Prop where
  known : KnownPartitions a.sched
  budgeted : a.sched.Budgeted
  total : ∀ p, a.server.total p = (utilisation a.sched p).toNat
  fits : ∀ p, a.server.total p ≤ 99

section
variable {a : AdmissionState} {r : TaskRequest}

/-- With the request bound, each partition has its share on top. -/
theorem InStep.utilisation_bound (h : InStep a) (hr : r.Valid a) (p : UInt32) :
    (utilisation (a.sched.setContext r.scId.toNat (r.context a.sched)) p).toNat =
      a.server.total p + (r.cfg.share p).toNat := by
  have hsame : a.sched.SameBound (a.sched.release r.scId.toNat) :=
    SchedState.sameBound_setContext hr.free rfl
  have hsc : r.scId.toNat < maxSchedContexts.toNat := UInt32.lt_iff_toNat_lt.mp hr.context
  rw [h.budgeted.utilisation_setContext hr.budgeted hsc, hsame.utilisation, r.share_context,
    h.total]

/-- Only the partition of the request can become too full. -/
theorem InStep.fits_with (h : InStep a)
    (hle : a.server.total r.cfg.partition + (r.cfg.share r.cfg.partition).toNat ≤ 99) (p : UInt32) :
    a.server.total p + (r.cfg.share p).toNat ≤ 99 := by
  by_cases hp : r.cfg.partition = p
  · rw [← hp]
    exact hle
  · have hzero : (r.cfg.share p).toNat = 0 := congrArg UInt64.toNat (if_neg hp)
    have hfits := h.fits p
    omega

theorem InStep.schedulable_bound_iff (h : InStep a) (hr : r.Valid a) :
    schedIsSchedulable (a.sched.setContext r.scId.toNat (r.context a.sched)) = true ↔
      a.server.total r.cfg.partition + (r.cfg.share r.cfg.partition).toNat ≤ 99 := by
  rw [schedIsSchedulable_iff]
  constructor
  · intro htest
    have hknown : r.cfg.partition < a.sched.numPartitions :=
      UInt32.lt_iff_toNat_lt.mpr (h.known _ hr.active)
    rw [← h.utilisation_bound hr]
    exact htest r.cfg.partition hknown
  · intro hle p _
    rw [h.utilisation_bound hr]
    exact h.fits_with hle p

theorem kernelAdmit_cases (h : InStep a) (hr : r.Valid a) :
    (a.server.total r.cfg.partition + (r.cfg.share r.cfg.partition).toNat ≤ 99 ∧
      kernelAdmit a.sched r =
        (true, a.sched.setContext r.scId.toNat (r.context a.sched))) ∨
    (¬ a.server.total r.cfg.partition + (r.cfg.share r.cfg.partition).toNat ≤ 99 ∧
      ∃ s', kernelAdmit a.sched r = (false, s') ∧ a.sched.SameBound s' ∧
        s'.partitions = a.sched.partitions) := by
  have hbind : schedContextBind a.sched r.scId r.tcbId r.cfg.partition r.cfg.budget r.cfg.period
      r.cfg.prio = (.ok, a.sched.setContext r.scId.toNat (r.context a.sched)) := by
    obtain ⟨-, heq⟩ | ⟨hnot, -⟩ := schedContextBind_cases a.sched r.scId r.tcbId r.cfg.partition
      r.cfg.budget r.cfg.period r.cfg.prio
    · exact heq
    · exact absurd hr.allowed hnot
  have htest := h.schedulable_bound_iff hr
  simp only [kernelAdmit, hbind]
  by_cases hle : a.server.total r.cfg.partition + (r.cfg.share r.cfg.partition).toNat ≤ 99
  · rw [if_pos (htest.mpr hle)]
    exact Or.inl ⟨hle, rfl⟩
  · rw [if_neg fun hok => hle (htest.mp hok)]
    refine Or.inr ⟨hle, _, rfl, ?_, rfl⟩
    rw [SchedState.release, SchedState.setContext_setContext]
    exact SchedState.sameBound_setContext hr.free rfl

theorem InStep.step (h : InStep a) (hr : r.Valid a) (hroom : a.server.taskCount < maxTasks) :
    ((schedAdmit a.server r.cfg).1 = 0 ↔ (kernelAdmit a.sched r).1 = true) ∧
      InStep (admissionStep a r) ∧
      (admissionStep a r).server.taskCount.toNat ≤ a.server.taskCount.toNat + 1 := by
  have hshare := hr.share_le r.cfg.partition
  obtain ⟨hle, hserver⟩ | ⟨hnot, hserver⟩ := schedAdmit_cases (h.fits _) hshare hroom
  · obtain ⟨-, hkernel⟩ | ⟨hnot, -⟩ := kernelAdmit_cases h hr
    · rw [admissionStep, hserver, hkernel]
      have htotal : ∀ p, (a.server.push r.cfg).total p =
          (utilisation (a.sched.setContext r.scId.toNat (r.context a.sched)) p).toNat := by
        intro p
        rw [SchedServer.total_push hroom, h.utilisation_bound hr]
      refine ⟨by simp, ⟨h.known, h.budgeted.setContext hr.budgeted _, htotal, fun p => ?_⟩,
        (SchedServer.toNat_push hroom r.cfg).le⟩
      show (a.server.push r.cfg).total p ≤ 99
      rw [SchedServer.total_push hroom]
      exact h.fits_with hle p
    · exact absurd hle hnot
  · obtain ⟨hle, -⟩ | ⟨-, s', hkernel, hsame, hparts⟩ := kernelAdmit_cases h hr
    · exact absurd hle hnot
    · rw [admissionStep, hserver, hkernel]
      have hknown : KnownPartitions s' := by
        intro i hi
        rw [hparts] at hi
        rw [hsame.numPartitions]
        exact h.known i hi
      refine ⟨by simp, ⟨hknown, h.budgeted.releases hsame.releases, fun p => ?_, h.fits⟩,
        Nat.le_succ _⟩
      show a.server.total p = (utilisation s' p).toNat
      rw [hsame.utilisation, h.total]

/-- Neither side ever has more than it would admit. -/
theorem InStep.admissible (h : InStep a) :
    schedIsAdmissible a.server = true ∧ schedIsSchedulable a.sched = true := by
  constructor
  · rw [schedIsAdmissible, List.all_eq_true]
    intro p _
    obtain ⟨r, hr, hval⟩ := partitionLoop_of_fits a.server.tasks (UInt32.ofNat p)
      (List.range a.server.taskCount.toNat) 0
      (by rw [UInt64.toNat_zero, Nat.zero_add]; exact h.fits _)
    rw [UInt64.toNat_zero, Nat.zero_add] at hval
    simp only [isSchedulableForPartition, hr, decide_eq_true_iff]
    rw [UInt64.le_iff_toNat_le, hval]
    exact h.fits _
  · rw [schedIsSchedulable_iff]
    intro p _
    rw [← h.total]
    exact h.fits p

end

theorem inStep_start {s : SchedState} (hknown : KnownPartitions s) (hfree : NoBoundContext s) :
    InStep ⟨SchedServer.zero, s⟩ := by
  have hbudgeted : s.Budgeted := by
    intro i hi hbound
    rw [hfree i hi] at hbound
    cases hbound
  refine ⟨hknown, hbudgeted, fun p => ?_, fun p => Nat.zero_le 99⟩
  show 0 = _
  rw [hbudgeted.toNat_utilisation, Finset.sum_eq_zero]
  intro i hi
  rw [SchedContext.share_of_unbound (hfree i (Finset.mem_range.mp hi))]
  rfl

theorem inStep_run {reqs : List TaskRequest} {a : AdmissionState} (h : InStep a)
    (hlen : a.server.taskCount.toNat + reqs.length ≤ 64)
    (hvalid : Run.Guarded admissionStep (fun a r => r.Valid a) a reqs) :
    Run.Guarded admissionStep
      (fun a r => (schedAdmit a.server r.cfg).1 = 0 ↔ (kernelAdmit a.sched r).1 = true) a reqs := by
  induction reqs generalizing a with
  | nil => trivial
  | cons r reqs ih =>
    obtain ⟨hr, hrest⟩ := hvalid
    rw [List.length_cons] at hlen
    have hroom : a.server.taskCount < maxTasks := by
      rw [UInt32.lt_iff_toNat_lt]
      show _ < 64
      omega
    obtain ⟨hagree, hstep, hcount⟩ := h.step hr hroom
    exact ⟨hagree, ih hstep (by omega) hrest⟩

/-- Whatever the scheduler has been through before no context is bound, at most 64 requests
are decided alike by `sched_admit` and by binding them in the kernel, each after the same
requests have been accepted. -/
theorem admission_agrees {calls : List SchedCall} {reqs : List TaskRequest}
    (hfree : NoBoundContext (Run.exec schedStep schedInit calls)) (hlen : reqs.length ≤ 64)
    (hvalid : Run.Guarded admissionStep (fun a r => r.Valid a)
      ⟨SchedServer.zero, Run.exec schedStep schedInit calls⟩ reqs) :
    Run.Guarded admissionStep
      (fun a r => (schedAdmit a.server r.cfg).1 = 0 ↔ (kernelAdmit a.sched r).1 = true)
      ⟨SchedServer.zero, Run.exec schedStep schedInit calls⟩ reqs := by
  have hstep : ∀ s c, KnownPartitions s → KnownPartitions (schedStep s c) := fun _ c h => h.step c
  have hknown := Run.exec_invariant_of_forall hstep calls schedInit_known
  refine inStep_run (inStep_start hknown hfree) ?_ hvalid
  show 0 + reqs.length ≤ 64
  omega

/-- Partitions of 6 and 2 ms. -/
def serverCalls : List SchedCall := [.create ⟨0, 0, 6000, 1⟩, .create ⟨1, 6000, 2000, 3⟩]

/-- Sixty percent of partition 0, twice, and ten percent of partition 1. -/
def serverRequests : List TaskRequest :=
  [⟨⟨0, 0, 6000, 10000, 10, true⟩, 0, 1⟩, ⟨⟨1, 0, 6000, 10000, 10, true⟩, 1, 2⟩,
    ⟨⟨2, 1, 1000, 10000, 10, true⟩, 1, 3⟩]

/-- The second request is refused on both sides, and the other two are accepted. -/
theorem admission_agrees_three :
    Run.Guarded admissionStep
      (fun a r => (schedAdmit a.server r.cfg).1 = 0 ↔ (kernelAdmit a.sched r).1 = true)
      ⟨SchedServer.zero, Run.exec schedStep schedInit serverCalls⟩ serverRequests ∧
    (Run.exec admissionStep ⟨SchedServer.zero, Run.exec schedStep schedInit serverCalls⟩
      serverRequests).server.taskCount = 2 := by
  have hfree : NoBoundContext (Run.exec schedStep schedInit serverCalls) := fun _ _ => rfl
  refine ⟨admission_agrees hfree (by decide) ⟨?_, ?_, ?_, trivial⟩, by decide +kernel⟩
  · exact ⟨by decide, by decide, by decide +kernel, by decide +kernel, by decide, by decide +kernel⟩
  · exact ⟨by decide, by decide, by decide +kernel, by decide +kernel, by decide, by decide +kernel⟩
  · exact ⟨by decide, by decide, by decide +kernel, by decide +kernel, by decide, by decide +kernel⟩

end Moonlight
